import Reflection.Proofs.Scope.Reuse

/-!
# The range of a cursor

A bound of a range is set to the position of the stream that is nearest to an offset, however far outside
of the stream the offset lies. A new start takes the end along where it passes it, and a new end the start.
So the bounds are in order and in the stream after every history of a cursor, and the number of positions
between them is their difference.

## Main definitions

* `TokenRange.Within`: the bounds of a range are in order and in a stream.
* `CursorStep.rangeAfter`: the range after a step.

## Main statements

* `TokenRange.natCast_clamp`: the position nearest to an offset.
* `TokenRange.natCast_stop_setFirst`, `TokenRange.natCast_first_setStop`: the bound that is taken along.
* `Cursor.range_perform`: how a step changes the range.
* `Cursor.within_after`: the range stays in the stream.
* `Cursor.bounds_after`: the bounds after a history, and what the setters make of them.
-/
namespace Reflection

namespace TokenRange

variable {count : Nat} {r : TokenRange}

/-- The bounds of a range are in order, and in a stream of `count` tokens. -/
structure Within (count : Nat) (r : TokenRange) : Prop where
  ordered : r.first ≤ r.stop
  bounded : r.stop ≤ count

/-- The position nearest to an offset is the offset, cut off at both ends of the stream. -/
theorem natCast_clamp (count : Nat) (offset : Int) :
    (clamp count offset : Int) = max 0 (min (count : Int) offset) := by
  unfold clamp
  omega

theorem clamp_le (count : Nat) (offset : Int) : clamp count offset ≤ count := Nat.min_le_left ..

theorem clamp_mono {start stop : Int} (h : start ≤ stop) : clamp count start ≤ clamp count stop := by
  unfold clamp
  omega

/-- A new start takes the end along where it passes it. -/
theorem natCast_stop_setFirst (count : Nat) (r : TokenRange) (offset : Int) :
    ((r.setFirst count offset).stop : Int) = max (max 0 (min (count : Int) offset)) r.stop := by
  rw [← natCast_clamp]
  show ((max (clamp count offset) r.stop : Nat) : Int) = _
  omega

/-- A new end takes the start along where it passes it. -/
theorem natCast_first_setStop (count : Nat) (r : TokenRange) (offset : Int) :
    ((r.setStop count offset).first : Int) = min (max 0 (min (count : Int) offset)) r.first := by
  rw [← natCast_clamp]
  show ((min (clamp count offset) r.first : Nat) : Int) = _
  omega

/-- Between bounds in order the number of positions is not cut off at zero. -/
theorem Within.natCast_size (h : r.Within count) : (r.size : Int) = r.stop - r.first :=
  Int.ofNat_sub h.ordered

theorem Within.setFirst (h : r.Within count) (offset : Int) : (r.setFirst count offset).Within count where
  ordered := Nat.le_max_left ..
  bounded := Nat.max_le.mpr ⟨clamp_le count offset, h.bounded⟩

/-- A new end puts the bounds in order, whatever they were. -/
theorem within_setStop (r : TokenRange) (offset : Int) : (r.setStop count offset).Within count where
  ordered := Nat.min_le_left ..
  bounded := clamp_le count offset

theorem within_of_between {start stop : Int} (h : between count start stop = .ok r) : r.Within count := by
  unfold between at h
  split at h
  · cases h
  · rename_i hordered
    cases h
    exact ⟨clamp_mono (Int.not_lt.mp hordered), clamp_le count stop⟩

end TokenRange

/-- The range of a cursor on `count` tokens after a step. Only setters change it, and only those that do not
fail. -/
def CursorStep.rangeAfter (count : Nat) (r : TokenRange) : CursorStep → TokenRange
  | setFirst offset => r.setFirst count offset
  | setStop offset => r.setStop count offset
  | setBetween start stop => (TokenRange.between count start stop).toOption.getD r
  | visit _ | token _ | setHandler _ | setUncallable => r

theorem CursorStep.within_rangeAfter {count : Nat} {r : TokenRange} (h : r.Within count)
    (step : CursorStep) : (step.rangeAfter count r).Within count := by
  cases step with
  | setFirst offset => exact h.setFirst offset
  | setStop offset => exact r.within_setStop offset
  | setBetween start stop =>
    rw [rangeAfter]
    cases hbetween : TokenRange.between count start stop with
    | error fault => exact h
    | ok r' => exact TokenRange.within_of_between hbetween
  | visit limit => exact h
  | token index => exact h
  | setHandler handler => exact h
  | setUncallable => exact h

namespace Cursor

/-! ## Steps -/

theorem range_perform (step : CursorStep) (c : Cursor) :
    (step.perform.on c).2.range = step.rangeAfter c.entries.length c.range := by
  have hkept {α : Type} {m : CursorM α} (hm : m.Faithful) : (m.on c).2.range = c.range :=
    congrArg (fun s => s.2.1) (hm.setup c)
  cases step with
  | visit limit => exact hkept (faithful_visit limit)
  | token index => exact hkept (CursorM.Quiet.bind (quiet_fetch index) fun _ => .pure ()).toFaithful
  | setFirst offset => rfl
  | setStop offset => rfl
  | setBetween start stop =>
    show ((setRange (TokenRange.between c.entries.length start stop)).on c).2.range = _
    rw [CursorStep.rangeAfter]
    cases TokenRange.between c.entries.length start stop <;> rfl
  | setHandler handler => rfl
  | setUncallable => rfl

theorem length_entries_of_readings {c d : Cursor} (h : c.readings = d.readings) :
    c.entries.length = d.entries.length := by
  have hlength := congrArg List.length h
  rwa [readings, readings, List.length_map, List.length_map] at hlength

theorem length_entries_after (c : Cursor) (history : List CursorStep) :
    (c.after history).entries.length = c.entries.length :=
  length_entries_of_readings (readings_after c history)

/-! ## Histories -/

theorem within_perform (step : CursorStep) {c : Cursor} (h : c.range.Within c.entries.length) :
    (step.perform.on c).2.range.Within (step.perform.on c).2.entries.length := by
  rw [range_perform, length_entries_of_readings (readings_perform step c)]
  exact step.within_rangeAfter h

/-- The range stays in the stream. -/
theorem within_after {c : Cursor} (h : c.range.Within c.entries.length) (history : List CursorStep) :
    (c.after history).range.Within (c.after history).entries.length := by
  induction history generalizing c with
  | nil => exact h
  | cons step rest ih => exact ih (within_perform step h)

theorem within_after_ofTokens (tokens : List RawToken) (history : List CursorStep) :
    ((ofTokens tokens).after history).range.Within tokens.length := by
  have hwithin := within_after (c := ofTokens tokens) ⟨Nat.zero_le _, Nat.le_refl _⟩ history
  rwa [length_entries_after] at hwithin

/-- After every history of a cursor the bounds of its range are in order and in the stream, so that the
number of positions between them is their difference. Bounds that are set together are set to the positions
nearest to the offsets; if the second offset lies before the first one, this fails and leaves the cursor as
it was. A start that is set takes the end along where it passes it, and an end the start. -/
theorem bounds_after (tokens : List RawToken) (history : List CursorStep) :
    let c := (ofTokens tokens).after history
    let nearest (offset : Int) : Int := max 0 (min tokens.length offset)
    (c.range.Within tokens.length ∧ (c.range.size : Int) = c.range.stop - c.range.first) ∧
    (∀ start stop : Int,
      let r := (CursorStep.setBetween start stop).perform.on c
      if stop < start then r = (.error (.setup (.reversed start stop)), c)
      else r.1 = .ok () ∧ (r.2.range.first : Int) = nearest start ∧ (r.2.range.stop : Int) = nearest stop) ∧
    (∀ offset : Int,
      let r := (CursorStep.setFirst offset).perform.on c
      r.1 = .ok () ∧ (r.2.range.first : Int) = nearest offset ∧
        (r.2.range.stop : Int) = max (nearest offset) c.range.stop) ∧
    ∀ offset : Int,
      let r := (CursorStep.setStop offset).perform.on c
      r.1 = .ok () ∧ (r.2.range.first : Int) = min (nearest offset) c.range.first ∧
        (r.2.range.stop : Int) = nearest offset := by
  intro c nearest
  have hwithin : c.range.Within tokens.length := within_after_ofTokens tokens history
  have hlength : c.entries.length = tokens.length := length_entries_after (ofTokens tokens) history
  have hnearest (offset : Int) : (TokenRange.clamp c.entries.length offset : Int) = nearest offset := by
    rw [TokenRange.natCast_clamp, hlength]
  refine ⟨⟨hwithin, hwithin.natCast_size⟩, fun start stop => ?_, fun offset => ?_, fun offset => ?_⟩
  · have hperform : (CursorStep.setBetween start stop).perform.on c =
        (setRange (TokenRange.between c.entries.length start stop)).on c := rfl
    rw [hperform, TokenRange.between]
    split_ifs with hreversed
    · rfl
    · exact ⟨rfl, hnearest start, hnearest stop⟩
  · exact ⟨rfl, hnearest offset, (TokenRange.natCast_stop_setFirst ..).trans (by rw [hlength])⟩
  · exact ⟨rfl, (TokenRange.natCast_first_setStop ..).trans (by rw [hlength]), hnearest offset⟩

-- A start behind the end, an end before the stream and bounds out of order: the last call leaves the
-- empty range that the second one made.
example :
    let c := (ofTokens [.bare "a", .bare "b", .bare "c"]).after
      [.setBetween (-5) 2, .setFirst 9, .setStop (-1), .setBetween 3 1]
    c.range = ⟨0, 0⟩ := by decide

end Cursor
end Reflection
