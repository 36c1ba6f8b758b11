import Mathlib.Data.List.Nodup
import Mathlib.Data.List.Range
import Mathlib.Logic.Function.Basic

/-!
# Loops that read values into an array

A reader takes a value off the front of its input. A loop over slots reads one
value for each slot; its effect is known from the list of values that the input
holds. Loops over the rows and columns of a matrix are loops over one index.
-/

namespace Finm327.Library.ReadLoops

open Function (update)

variable {Value Input : Type}

/-- Reading one value after the other. -/
inductive Reads (read : Input → Option (Value × Input)) : Input → List Value → Input → Prop
  | done (p : Input) : Reads read p [] p
  | one {p q r : Input} {v : Value} {vs : List Value} (head : read p = some (v, q))
      (rest : Reads read q vs r) : Reads read p (v :: vs) r

theorem Reads.append {read : Input → Option (Value × Input)} {p q r : Input} {vs ws : List Value}
    (first : Reads read p vs q) (second : Reads read q ws r) : Reads read p (vs ++ ws) r := by
  induction first with
  | done p => exact second
  | one head _ ih => exact .one head (ih second)

/-- Reading one more value. -/
theorem Reads.snoc {read : Input → Option (Value × Input)} {p q r : Input} {v : Value}
    {vs : List Value} (reads : Reads read p vs q) (last : read q = some (v, r)) :
    Reads read p (vs ++ [v]) r :=
  reads.append (.one last (.done r))

/-- Between two lists of values the input has a place. -/
theorem Reads.split {read : Input → Option (Value × Input)} {p r : Input} {vs ws : List Value}
    (reads : Reads read p (vs ++ ws) r) : ∃ q, Reads read p vs q ∧ Reads read q ws r := by
  induction vs generalizing p with
  | nil => exact ⟨p, .done p, reads⟩
  | cons v vs ih =>
      cases reads with
      | one head rest =>
          obtain ⟨q, first, second⟩ := ih rest
          exact ⟨q, .one head first, second⟩

theorem Reads.head {read : Input → Option (Value × Input)} {p r : Input} {v : Value}
    {vs : List Value} (reads : Reads read p (v :: vs) r) :
    ∃ q, read p = some (v, q) ∧ Reads read q vs r := by
  cases reads with
  | one head rest => exact ⟨_, head, rest⟩

theorem Reads.stop {read : Input → Option (Value × Input)} {p r : Input}
    (reads : Reads read p [] r) : p = r := by
  cases reads with
  | done => rfl

/-- As many values from the same input are the same values. -/
theorem Reads.unique {read : Input → Option (Value × Input)} {p q r : Input} {vs ws : List Value}
    (first : Reads read p vs q) (second : Reads read p ws r) (same : vs.length = ws.length) :
    vs = ws := by
  induction first generalizing ws with
  | done p => exact (List.eq_nil_of_length_eq_zero same.symm).symm
  | one head _ ih =>
      cases second with
      | done => cases same
      | one other rest =>
          rw [head] at other
          cases other
          rw [ih rest (Nat.succ.inj same)]

/-- So many values, one after the other. -/
def readMany (read : Input → Option (Value × Input)) : Nat → Input → Option (List Value × Input)
  | 0, p => some ([], p)
  | n + 1, p =>
    match read p with
    | none => none
    | some (v, p) => (readMany read n p).map fun (vs, p) => (v :: vs, p)

theorem Reads.read_many {read : Input → Option (Value × Input)} {p q : Input} {vs : List Value}
    (reads : Reads read p vs q) : readMany read vs.length p = some (vs, q) := by
  induction reads with
  | done p => rfl
  | one head _ ih => simp [readMany, head, ih]

/-- The body of a loop that reads into `slot`. -/
def readAt (read : Input → Option (Value × Input)) (state : (Nat → Value) × Input) (slot : Nat) :
    Option ((Nat → Value) × Input) :=
  match read state.2 with
  | none => none
  | some (v, p) => some (update state.1 slot v, p)

theorem read_at_of_read {read : Input → Option (Value × Input)} {p q : Input} {v : Value}
    (head : read p = some (v, q)) (array : Nat → Value) (slot : Nat) :
    readAt read (array, p) slot = some (update array slot v, q) := by
  unfold readAt
  dsimp only
  rw [head]

def store : List Nat → List Value → (Nat → Value) → Nat → Value
  | slot :: slots, v :: vs, array => store slots vs (update array slot v)
  | _, _, array => array

theorem read_loop {read : Input → Option (Value × Input)} {p q : Input} {vs : List Value}
    (reads : Reads read p vs q) {slots : List Nat} (same : slots.length = vs.length)
    (array : Nat → Value) :
    slots.foldlM (readAt read) (array, p) = some (store slots vs array, q) := by
  induction reads generalizing slots array with
  | done p =>
      rw [List.length_nil, List.length_eq_zero_iff] at same
      rw [same]
      rfl
  | one head _ ih =>
      cases slots with
      | nil => cases same
      | cons slot slots =>
          rw [List.foldlM_cons, read_at_of_read head]
          exact ih (Nat.succ.inj same) _

theorem store_of_not_mem {slots : List Nat} {slot : Nat} (absent : slot ∉ slots)
    (vs : List Value) (array : Nat → Value) : store slots vs array slot = array slot := by
  induction slots generalizing vs array with
  | nil => rfl
  | cons first slots ih =>
      rw [List.mem_cons, not_or] at absent
      cases vs with
      | nil => rfl
      | cons v vs =>
          rw [store, ih absent.2]
          exact Function.update_of_ne absent.1 v array

/-- Each slot ends with the value read for it. -/
theorem store_get {slots : List Nat} (apart : slots.Nodup) {vs : List Value} {t slot : Nat}
    {v : Value} (place : slots[t]? = some slot) (value : vs[t]? = some v)
    (array : Nat → Value) : store slots vs array slot = v := by
  induction slots generalizing vs array t with
  | nil => cases place
  | cons first slots ih =>
      rw [List.nodup_cons] at apart
      cases vs with
      | nil => cases value
      | cons w vs =>
          cases t with
          | zero =>
              cases place
              cases value
              rw [store, store_of_not_mem apart.1, Function.update_self]
          | succ t => exact ih apart.2 place value _

/-- A loop over a range, from the state it has before each index. -/
theorem foldlM_range {State : Type} {body : State → Nat → Option State} {n : Nat}
    (states : Nat → State) (step : ∀ i, i < n → body (states i) i = some (states (i + 1))) :
    (List.range n).foldlM body (states 0) = some (states n) := by
  induction n with
  | zero => rfl
  | succ n ih =>
      rw [List.range_succ, List.foldlM_append, ih fun i below => step i (by omega),
        Option.bind_eq_bind, Option.bind_some, List.foldlM_cons, step n (Nat.lt_succ_self n)]
      rfl

/-! ## Rows and columns -/

theorem range_rows (m n : Nat) :
    (List.range m).flatMap (fun i => (List.range n).map (fun j => i * n + j)) =
      List.range (m * n) := by
  induction m with
  | zero => rw [Nat.zero_mul]; rfl
  | succ m ih =>
      rw [List.range_succ, List.flatMap_append, ih, Nat.succ_mul, List.range_add]
      simp

theorem map_fin_range {n : Nat} (g : Nat → Value) :
    (List.finRange n).map (fun i : Fin n => g i) = (List.range n).map g := by
  apply List.ext_getElem
  · simp
  · intro t _ _
    simp

/-- The entries of a matrix, one row after the other. -/
theorem fin_rows {m n : Nat} {f : Fin m → Fin n → Value} {g : Nat → Value}
    (agree : ∀ (i : Fin m) (j : Fin n), g (i * n + j) = f i j) :
    (List.finRange m).flatMap (fun i => (List.finRange n).map (f i)) =
      (List.range (m * n)).map g := by
  have row : ∀ i : Fin m, (List.finRange n).map (f i) =
      (List.range n).map (fun j => g (i * n + j)) := by
    intro i
    rw [← map_fin_range (fun j => g (i * n + j))]
    exact List.map_congr_left fun j _ => (agree i j).symm
  have rows : (List.finRange m).map (fun i : Fin m => (List.range n).map fun j => g (i * n + j)) =
      (List.range m).map fun i => (List.range n).map fun j => g (i * n + j) :=
    map_fin_range (fun i => (List.range n).map fun j => g (i * n + j))
  rw [← range_rows, List.map_flatMap, List.flatMap_def, List.flatMap_def, funext row, rows]
  simp only [List.map_map]
  rfl

/-- A loop over rows and columns is a loop over all places of the matrix. -/
theorem foldlM_rows {State : Type} {body : State → Nat → Nat → Option State}
    {flat : State → Nat → Option State} {m n : Nat}
    (same : ∀ state i j, j < n → body state i j = flat state (i * n + j)) (state : State) :
    (List.range m).foldlM (fun state i =>
        (List.range n).foldlM (fun state j => body state i j) state) state =
      (List.range (m * n)).foldlM flat state := by
  have row : ∀ i, ∀ columns : List Nat, (∀ j ∈ columns, j < n) → ∀ state,
      columns.foldlM (fun state j => body state i j) state =
        (columns.map (fun j => i * n + j)).foldlM flat state := by
    intro i columns
    induction columns with
    | nil =>
        intro _ _
        rfl
    | cons j columns ih =>
        intro below state
        rw [List.foldlM_cons, List.map_cons, List.foldlM_cons,
          same state i j (below j List.mem_cons_self)]
        congr 1
        funext next
        exact ih (fun k member => below k (List.mem_cons_of_mem j member)) next
  induction m generalizing state with
  | zero => rw [Nat.zero_mul]; rfl
  | succ m ih =>
      rw [List.range_succ, List.foldlM_append, ih, Nat.succ_mul, List.range_add,
        List.foldlM_append]
      congr 1
      funext next
      rw [List.foldlM_cons, row m _ (fun j member => List.mem_range.mp member)]
      simp

end Finm327.Library.ReadLoops
