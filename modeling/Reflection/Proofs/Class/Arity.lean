import Reflection.Proofs.Field.Outcome

/-!
# Numbers of arguments

A call gives all its arguments by position, the receiver first. Each goes to the next place among the
parameters, and those that are left to the parameter for the rest, if there is one. So the call is fine if
no parameter that requires an argument is left without one and no argument is left without a parameter.

## Main definitions

* `Method.places`, `Method.others`: the parameters that take an argument by position, and those from where
  none does.
* `Method.Accepts`, `Method.Takes`: the numbers of arguments that are fine.

## Main statements

* `Method.isSome_arguments?_iff`: the arguments of a call find their parameters just where their number is
  fine.
* `MethodHandle.invoke_wrongArguments_iff`: a call fails for the number of its arguments just where that is
  not fine.
-/
namespace Reflection

namespace Parameter

/-- It takes one argument by position. -/
def isPlace (p : Parameter) : Bool :=
  match p.kind with
  | .required | .optional _ => true
  | _ => false

/-- It takes all arguments by position that are left. -/
def isRest (p : Parameter) : Bool :=
  match p.kind with
  | .rest => true
  | _ => false

/-- There must be an argument for it. -/
def isRequired (p : Parameter) : Bool :=
  match p.kind with
  | .required => true
  | _ => false

/-- No parameter behind it takes an argument by position. -/
def endsPlaces (p : Parameter) : Bool :=
  match p.kind with
  | .rest | .nameMark => true
  | _ => false

end Parameter

namespace Method

variable {p : Parameter} {ps : List Parameter} {k : Nat}

/-- The parameters that take an argument by position. -/
def places (ps : List Parameter) : List Parameter :=
  (ps.takeWhile (!·.endsPlaces)).filter (·.isPlace)

/-- The parameters from the first one behind which there are no places. -/
def others (ps : List Parameter) : List Parameter := ps.dropWhile (!·.endsPlaces)

/-- Parameters accept a number of arguments by position: each argument has a place or is left for the rest,
and what has no argument by then does not require one. -/
structure Accepts (ps : List Parameter) (k : Nat) : Prop where
  places : ∀ p ∈ (Method.places ps).drop k, p.isRequired = false
  others : ∀ p ∈ Method.others ps, p.isRequired = false
  room : k ≤ (Method.places ps).length ∨ (Method.others ps).head?.any (·.isRest) = true

theorem accepts_iff : Accepts ps k ↔ (∀ p ∈ (Method.places ps).drop k, p.isRequired = false) ∧
    (∀ p ∈ Method.others ps, p.isRequired = false) ∧
    (k ≤ (Method.places ps).length ∨ (Method.others ps).head?.any (·.isRest) = true) :=
  ⟨fun h => ⟨h.places, h.others, h.room⟩, fun h => ⟨h.1, h.2.1, h.2.2⟩⟩

instance : Decidable (Accepts ps k) := decidable_of_iff _ accepts_iff.symm

/-! ## One parameter more -/

theorem places_cons_of_ends (h : p.endsPlaces = true) : places (p :: ps) = [] := by
  simp [places, h]

theorem others_cons_of_ends (h : p.endsPlaces = true) : others (p :: ps) = p :: ps := by
  simp [others, h]

theorem places_cons (h : p.endsPlaces = false) :
    places (p :: ps) = if p.isPlace then p :: places ps else places ps := by
  simp [places, h, List.filter_cons]

theorem others_cons (h : p.endsPlaces = false) : others (p :: ps) = others ps := by
  simp [others, h]

/-- No argument at all is accepted where none is required. -/
theorem accepts_zero_iff : Accepts ps 0 ↔ ∀ p ∈ ps, p.isRequired = false := by
  have hplaces (p : Parameter) (h : p.isRequired = true) : p.isPlace = true := by
    obtain ⟨name, kind⟩ := p
    cases kind <;> first | rfl | cases h
  have hsplit : (∀ p ∈ places ps, p.isRequired = false) ↔
      ∀ p ∈ ps.takeWhile (!·.endsPlaces), p.isRequired = false := by
    simp only [places, List.mem_filter, and_imp]
    refine forall₂_congr fun p _ => ⟨fun h => ?_, fun h _ => h⟩
    cases hrequired : p.isRequired with
    | false => rfl
    | true => exact absurd (h (hplaces p hrequired)) (by simp [hrequired])
  rw [accepts_iff, List.drop_zero, hsplit, ← and_assoc, others, ← List.forall_mem_append,
    List.takeWhile_append_dropWhile]
  simp

theorem accepts_rest_cons (name : String) :
    Accepts (⟨name, .rest⟩ :: ps) k ↔ ∀ p ∈ ps, p.isRequired = false := by
  rw [accepts_iff, places_cons_of_ends rfl, others_cons_of_ends rfl]
  simp [Parameter.isRest, Parameter.isRequired]

theorem accepts_nameMark_cons (name : String) :
    Accepts (⟨name, .nameMark⟩ :: ps) k ↔ k = 0 ∧ ∀ p ∈ ps, p.isRequired = false := by
  rw [accepts_iff, places_cons_of_ends rfl, others_cons_of_ends rfl]
  simp [Parameter.isRest, Parameter.isRequired, and_comm]

/-- Parameters that take no argument by position are passed over. -/
theorem accepts_cons_of_not_place (hends : p.endsPlaces = false) (hplace : p.isPlace = false) :
    Accepts (p :: ps) k ↔ Accepts ps k := by
  simp [accepts_iff, places_cons hends, others_cons hends, hplace]

theorem accepts_place_cons_succ (hends : p.endsPlaces = false) (hplace : p.isPlace = true) :
    Accepts (p :: ps) (k + 1) ↔ Accepts ps k := by
  simp [accepts_iff, places_cons hends, others_cons hends, hplace]

/-! ## Calls -/

/-- The arguments of a call find their parameters just where their number is accepted. -/
theorem isSome_arguments?_iff (ps : List Parameter) (args : List Argument) :
    (arguments? ps args).isSome = true ↔ Accepts ps args.length := by
  induction ps generalizing args with
  | nil => cases args <;> simp [arguments?, accepts_iff, places, others]
  | cons p ps ih =>
    obtain ⟨name, kind⟩ := p
    cases kind with
    | rest =>
      rw [arguments?, Option.isSome_map, ih, List.length_nil, accepts_zero_iff, accepts_rest_cons]
    | named => rw [arguments?, Option.isSome_map, ih, accepts_cons_of_not_place rfl rfl]
    | positionMark => rw [arguments?, ih, accepts_cons_of_not_place rfl rfl]
    | nameMark =>
      rw [accepts_nameMark_cons]
      cases args with
      | nil => simp [arguments?, ih, accepts_zero_iff]
      | cons a args => simp [arguments?]
    | required =>
      cases args with
      | nil => simp [arguments?, accepts_zero_iff, Parameter.isRequired]
      | cons a args =>
        rw [List.length_cons, accepts_place_cons_succ rfl rfl]
        simp [arguments?, ih]
    | optional default =>
      cases args with
      | nil => simp [arguments?, ih, accepts_zero_iff, Parameter.isRequired]
      | cons a args =>
        rw [List.length_cons, accepts_place_cons_succ rfl rfl]
        simp [arguments?, ih]

/-- A method can be called with a number of arguments besides its receiver, if anything is known about its
calls. -/
structure Takes (m : Method) (n : Nat) : Prop where
  known : m.body.isKnown = true
  accepts : Accepts m.parameters ((receiver m.kind).length + n)

theorem takes_iff {m : Method} {n : Nat} : m.Takes n ↔
    m.body.isKnown = true ∧ Accepts m.parameters ((receiver m.kind).length + n) :=
  ⟨fun h => ⟨h.known, h.accepts⟩, fun h => ⟨h.1, h.2⟩⟩

instance {m : Method} {n : Nat} : Decidable (m.Takes n) := decidable_of_iff _ takes_iff.symm

end Method

open Access

/-- A call fails for the number of its arguments just where the method does not take that many. -/
theorem MethodHandle.invoke_wrongArguments_iff (m : MethodHandle) (t : ClassTable)
    (values : List Value) (o : Instance) :
    outcome (m.invoke t values) o = .error .wrongArguments ↔ ¬ m.method.Takes values.length := by
  have haccepts := Method.isSome_arguments?_iff m.method.parameters
    (Method.receiver m.method.kind ++ values.map Argument.value)
  rw [List.length_append, List.length_map] at haccepts
  rw [Method.takes_iff, ← haccepts, invoke]
  cases Method.arguments? m.method.parameters
      (Method.receiver m.method.kind ++ values.map Argument.value) with
  | none => simp
  | some arguments =>
    cases hknown : m.method.body.isKnown with
    | false =>
      rw [MethodBody.eq_unknown hknown]
      simp [MethodBody.run]
    | true =>
      simp only [Option.isSome_some, and_self, not_true_eq_false, iff_false]
      exact MethodBody.failsWith_run t arguments hknown o _

end Reflection
