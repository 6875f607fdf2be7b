import Mathlib.Data.List.TakeDrop
import Mathlib.Logic.Function.Basic

namespace MeshcoreAnalyzer.Slices

/-! A slice variable of Go with the arrays behind it: what a copy of its header reads
after the variable has been compacted in place and appended to. -/

structure Slice where
  array : Nat
  len : Nat

/-- A variable of slice type. `cells` are the cells of each array that have been
written, `next` is the first array that is free. -/
structure SliceVar (α : Type) where
  cells : Nat → List α
  cap : Nat → Nat
  next : Nat
  slice : Slice
  within : slice.len ≤ (cells slice.array).length
  bounded : (cells slice.array).length ≤ cap slice.array
  allocated : slice.array < next

/-- `n` cells are filled, and the next `k` cells from `i` on are still to be looked at:
those that are kept move to the front. -/
def compactLoop {α : Type} (keep : α → Bool) : Nat → Nat → Nat → List α → List α × Nat
  | 0, _, n, cells => (cells, n)
  | k + 1, i, n, cells => match cells[i]? with
    | some r => if keep r then compactLoop keep k (i + 1) (n + 1) (cells.set n r)
        else compactLoop keep k (i + 1) n cells
    | none => (cells, n)

variable {α : Type}

theorem compactLoop_eq (keep : α → Bool) {k i n : Nat} {cells : List α} (hn : n ≤ i) (hi : i + k ≤ cells.length) :
    compactLoop keep k i n cells =
      (cells.take n ++ ((cells.drop i).take k).filter keep ++
        cells.drop (n + (((cells.drop i).take k).filter keep).length),
        n + (((cells.drop i).take k).filter keep).length) := by
  induction k generalizing i n cells with
  | zero => simp [compactLoop]
  | succ k ih =>
      have hlt : i < cells.length := by omega
      have hdrop : (cells.drop i).take (k + 1) = cells[i] :: (cells.drop (i + 1)).take k := by
        rw [List.drop_eq_getElem_cons hlt, List.take_succ_cons]
      have hget : cells[i]? = some cells[i] := List.getElem?_eq_getElem hlt
      rw [compactLoop]
      rw [hget, hdrop]
      dsimp only
      by_cases hkeep : keep cells[i] = true
      · have hrest : (cells.set n cells[i]).drop (i + 1) = cells.drop (i + 1) :=
          List.drop_set_of_lt (Nat.lt_succ_of_le hn)
        have hlen : i + 1 + k ≤ (cells.set n cells[i]).length := by
          rw [List.length_set]
          omega
        have htake : (cells.set n cells[i]).take (n + 1) = cells.take n ++ [cells[i]] := by
          rw [List.take_succ_eq_append_getElem (by rw [List.length_set]; omega), List.getElem_set_self,
            List.take_set_of_le (Nat.le_refl n)]
        rw [if_pos hkeep, ih (Nat.succ_le_succ hn) hlen, hrest, htake, List.filter_cons_of_pos hkeep,
          List.drop_set_of_lt (by omega), List.length_cons]
        simp [Nat.add_assoc, Nat.add_comm 1]
      · rw [if_neg hkeep, ih (Nat.le_succ_of_le hn) (by omega), List.filter_cons_of_neg hkeep]

namespace SliceVar

variable (σ : SliceVar α)

def readAt (s : Slice) : List α := (σ.cells s.array).take s.len

def contents : List α := σ.readAt σ.slice

theorem length_contents : σ.contents.length = σ.slice.len := by
  rw [contents, readAt]
  rw [List.length_take]
  exact Nat.min_eq_left σ.within

/-- The `nil` slice. -/
def empty : SliceVar α where
  cells := fun _ => []
  cap := fun _ => 0
  next := 1
  slice := ⟨0, 0⟩
  within := Nat.zero_le _
  bounded := Nat.le_refl _
  allocated := Nat.zero_lt_one

theorem compactLoop_contents (keep : α → Bool) : compactLoop keep σ.slice.len 0 0 (σ.cells σ.slice.array) =
    (σ.contents.filter keep ++ (σ.cells σ.slice.array).drop (σ.contents.filter keep).length,
      (σ.contents.filter keep).length) := by
  rw [compactLoop_eq keep (Nat.le_refl 0) ((Nat.zero_add _).symm ▸ σ.within)]
  simp [contents, readAt]

theorem length_filter_contents (keep : α → Bool) :
    (σ.contents.filter keep).length ≤ (σ.cells σ.slice.array).length :=
  Nat.le_trans (List.length_filter_le _ _) (σ.length_contents ▸ σ.within)

def compact (keep : α → Bool) : SliceVar α where
  cells := Function.update σ.cells σ.slice.array
    (compactLoop keep σ.slice.len 0 0 (σ.cells σ.slice.array)).1
  cap := σ.cap
  next := σ.next
  slice := ⟨σ.slice.array, (compactLoop keep σ.slice.len 0 0 (σ.cells σ.slice.array)).2⟩
  within := by
    rw [Function.update_self, compactLoop_contents, List.length_append]
    exact Nat.le_add_right _ _
  bounded := by
    rw [Function.update_self, compactLoop_contents, List.length_append, List.length_drop,
      Nat.add_sub_cancel' (σ.length_filter_contents keep)]
    exact σ.bounded
  allocated := σ.allocated

/-- `append`: in place where the capacity allows it, else in a new array. -/
def append (newCap : Nat) (xs : List α) : SliceVar α :=
  if h : σ.slice.len + xs.length ≤ σ.cap σ.slice.array then
    { cells := Function.update σ.cells σ.slice.array
        (σ.contents ++ xs ++ (σ.cells σ.slice.array).drop (σ.slice.len + xs.length))
      cap := σ.cap
      next := σ.next
      slice := ⟨σ.slice.array, σ.slice.len + xs.length⟩
      within := by
        rw [Function.update_self, List.length_append, List.length_append, length_contents]
        exact Nat.le_add_right _ _
      bounded := by
        have hcap := σ.bounded
        rw [Function.update_self, List.length_append, List.length_append, length_contents, List.length_drop]
        change σ.slice.len + xs.length + _ ≤ σ.cap σ.slice.array
        omega
      allocated := σ.allocated }
  else
    { cells := Function.update σ.cells σ.next (σ.contents ++ xs)
      cap := Function.update σ.cap σ.next (max newCap (σ.slice.len + xs.length))
      next := σ.next + 1
      slice := ⟨σ.next, σ.slice.len + xs.length⟩
      within := by
        apply Nat.le_of_eq
        rw [Function.update_self, List.length_append, length_contents]
      bounded := by
        rw [Function.update_self, Function.update_self, List.length_append, length_contents]
        exact Nat.le_max_right _ _
      allocated := Nat.lt_succ_self _ }

theorem contents_compact (keep : α → Bool) : (σ.compact keep).contents = σ.contents.filter keep := by
  rw [compact]
  rw [contents, readAt]
  dsimp only
  rw [Function.update_self, compactLoop_contents, List.take_left]

theorem contents_append (newCap : Nat) (xs : List α) : (σ.append newCap xs).contents = σ.contents ++ xs := by
  have hlen : (σ.contents ++ xs).length = σ.slice.len + xs.length := by rw [List.length_append, length_contents]
  rw [append]
  split
  · rw [contents, readAt]
    dsimp only
    rw [Function.update_self, ← hlen, List.take_left]
  · rw [contents, readAt]
    dsimp only
    rw [Function.update_self, ← hlen, List.take_length]

/-- A copy of a header still reads `read`. As long as the variable is in the array of
the copy, and `always` where that is wanted, it begins with `read`. -/
structure Stable (copy : Slice) (read : List α) (always : Prop) (σ : SliceVar α) : Prop where
  allocated : copy.array < σ.next
  length : read.length = copy.len
  reads : σ.readAt copy = read
  leads : σ.slice.array = copy.array ∨ always → read <+: σ.contents

variable {σ} {copy : Slice} {read : List α} {always : Prop}

theorem stable_slice (σ : SliceVar α) (always : Prop) : Stable σ.slice σ.contents always σ :=
  ⟨σ.allocated, σ.length_contents, rfl, fun _ => List.prefix_refl _⟩

theorem take_of_leads {cells : List α} (hlen : read.length = copy.len) (h : read <+: cells) :
    cells.take copy.len = read := by
  rw [← hlen]
  exact (List.prefix_iff_eq_take.mp h).symm

theorem Stable.compact (h : Stable copy read always σ) {keep : α → Bool}
    (hkeep : σ.slice.array = copy.array ∨ always → ∀ x ∈ read, keep x = true) :
    Stable copy read always (σ.compact keep) := by
  have hleads : σ.slice.array = copy.array ∨ always → read <+: σ.contents.filter keep := by
    intro hin
    obtain ⟨rest, hrest⟩ := h.leads hin
    rw [← hrest, List.filter_append, List.filter_eq_self.mpr (hkeep hin)]
    exact List.prefix_append _ _
  refine ⟨h.allocated, h.length, ?_, fun hin => (contents_compact σ keep).symm ▸ hleads hin⟩
  rw [SliceVar.compact, readAt]
  dsimp only
  by_cases harray : copy.array = σ.slice.array
  · rw [harray, Function.update_self, compactLoop_contents]
    exact take_of_leads h.length ((hleads (.inl harray.symm)).trans (List.prefix_append _ _))
  · rw [Function.update_of_ne harray]
    exact h.reads

theorem Stable.append (h : Stable copy read always σ) (newCap : Nat) (xs : List α) :
    Stable copy read always (σ.append newCap xs) := by
  have hcontents := contents_append σ newCap xs
  unfold SliceVar.append at hcontents ⊢
  split at hcontents
  · next hcap =>
      rw [dif_pos hcap]
      refine ⟨h.allocated, h.length, ?_, fun hin => hcontents.symm ▸ (h.leads hin).trans (List.prefix_append _ _)⟩
      rw [readAt]
      dsimp only
      by_cases harray : copy.array = σ.slice.array
      · rw [harray, Function.update_self, List.append_assoc]
        exact take_of_leads h.length ((h.leads (.inl harray.symm)).trans (List.prefix_append _ _))
      · rw [Function.update_of_ne harray]
        exact h.reads
  · next hcap =>
      rw [dif_neg hcap]
      have hne : copy.array ≠ σ.next := Nat.ne_of_lt h.allocated
      refine ⟨Nat.lt_succ_of_lt h.allocated, h.length, ?_, fun hin => ?_⟩
      · rw [readAt]
        dsimp only
        rw [Function.update_of_ne hne]
        exact h.reads
      · rcases hin with hin | hin
        · exact absurd hin.symm hne
        · exact hcontents.symm ▸ (h.leads (.inr hin)).trans (List.prefix_append _ _)

end SliceVar

end MeshcoreAnalyzer.Slices
