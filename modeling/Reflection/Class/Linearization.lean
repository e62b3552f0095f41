/-!
# Linear order of ancestors

The ancestors of a class stand in one order that keeps the order of every base's ancestors and the
order of the bases. It is merged from these orders: the next class is the first that heads one of
them and stands behind the head of none. Where there is no such class, the orders contradict each
other.

## Main definitions

* `merge?`: the order merged from several.

## Main statements

* `size_next_lt`: taking the next class from the heads leaves less to merge.
-/
namespace Reflection.Linearization

variable {α : Type} [DecidableEq α]

/-- The order without its head, if that is a given class. -/
def dropHead (c : α) : List α → List α
  | [] => []
  | x :: rest => if x = c then rest else x :: rest

/-- The first class that heads an order and stands behind the head of none. -/
def next? (orders : List (List α)) : Option α :=
  (orders.filterMap List.head?).find? fun c => orders.all fun o => !o.tail.contains c

/-- Number of classes left to merge, counted as often as they occur. -/
def size (orders : List (List α)) : Nat := (orders.map List.length).foldr Nat.add 0

theorem length_dropHead_le (c : α) (o : List α) : (dropHead c o).length ≤ o.length := by
  cases o with
  | nil => simp [dropHead]
  | cons x rest =>
    simp only [dropHead]
    split <;> simp

omit [DecidableEq α] in
@[simp] theorem size_cons (o : List α) (orders : List (List α)) :
    size (o :: orders) = o.length + size orders := rfl

theorem size_dropHead_le (c : α) (orders : List (List α)) :
    size (orders.map (dropHead c)) ≤ size orders := by
  induction orders with
  | nil => simp
  | cons o rest ih =>
    have := length_dropHead_le c o
    simp only [List.map_cons, size_cons]
    omega

theorem size_dropHead_lt {c : α} {orders : List (List α)} (h : c ∈ orders.filterMap List.head?) :
    size (orders.map (dropHead c)) < size orders := by
  induction orders with
  | nil => simp at h
  | cons o rest ih =>
    have hle := length_dropHead_le c o
    have hrest := size_dropHead_le c rest
    simp only [List.map_cons, size_cons]
    cases o with
    | nil =>
      have := ih (by simpa using h)
      omega
    | cons x xs =>
      simp only [List.filterMap_cons, List.head?_cons, List.mem_cons] at h
      rcases h with rfl | h
      · simp only [dropHead, if_true, List.length_cons]
        omega
      · have := ih h
        omega

theorem size_next_lt {c : α} {orders : List (List α)} (h : next? orders = some c) :
    size (orders.map (dropHead c)) < size orders :=
  size_dropHead_lt (List.mem_of_find?_eq_some h)

/-- The order merged from several, none where they contradict each other. -/
def merge? (orders : List (List α)) : Option (List α) :=
  if orders.all List.isEmpty then some []
  else
    match h : next? orders with
    | none => none
    | some c =>
      have := size_next_lt h
      (merge? (orders.map (dropHead c))).map (c :: ·)
  termination_by size orders

end Reflection.Linearization
