import Mathlib.Algebra.Order.BigOperators.Group.List
import Mathlib.Algebra.Order.Group.Int
import Mathlib.Algebra.Ring.Int.Defs
import Mathlib.Data.Finset.Basic
import Mathlib.Data.List.Dedup
import Mathlib.Data.List.Sort
import Mathlib.Data.String.Basic

namespace MeshcoreAnalyzer.Maps

variable {K V : Type}

theorem view_update {A B C : Type} [DecidableEq A] (view : B → C) {f : A → B} {a : A} {b : B}
    (h : view b = view (f a)) : (fun x => view (Function.update f a b x)) = fun x => view (f x) := by
  funext x
  by_cases hx : x = a
  · subst hx
    simpa using h
  · simp [hx]

/-- A map of the source: a missing key reads as `none`. -/
abbrev GoMap (K V : Type) := K → Option V

def empty : GoMap K V := fun _ => none

@[simp] theorem empty_apply (k : K) : (empty : GoMap K V) k = none := rfl

/-- A map to slices: a missing key reads as the empty slice. -/
def bucket (m : GoMap K (List V)) (k : K) : List V := (m k).getD []

@[simp] theorem bucket_empty (k : K) : bucket (empty : GoMap K (List V)) k = [] := rfl

def NoEmpty (m : GoMap K (List V)) : Prop := ∀ k, m k ≠ some []

theorem noEmpty_empty : NoEmpty (empty : GoMap K (List V)) := by
  intro k
  simp

theorem noEmpty_compacted {m : GoMap K (List V)} :
    NoEmpty fun k => if bucket m k = [] then none else m k := by
  intro k
  by_cases hk : bucket m k = []
  · simp [hk]
  · simp only [if_neg hk]
    intro hm
    exact hk (by rw [bucket, hm, Option.getD_some])

/-- Slices filtered under the keys that the test names; a slice that comes out
empty takes its key with it. -/
def filterKeys (keys : K → Bool) (p : V → Bool) (m : GoMap K (List V)) : GoMap K (List V) :=
  fun k => if keys k then
    (if (bucket m k).filter p = [] then none else some ((bucket m k).filter p)) else m k

theorem bucket_filterKeys (keys : K → Bool) (p : V → Bool) (m : GoMap K (List V)) (k : K) :
    bucket (filterKeys keys p m) k = if keys k then (bucket m k).filter p else bucket m k := by
  change Option.getD (filterKeys keys p m k) [] = _
  rw [filterKeys]
  by_cases hk : keys k = true
  · rw [if_pos hk, if_pos hk]
    split
    · next h => rw [h]; rfl
    · rfl
  · rw [if_neg hk, if_neg hk]
    rfl

def count (m : GoMap K Int) (k : K) : Int := (m k).getD 0

@[simp] theorem count_empty (k : K) : count (empty : GoMap K Int) k = 0 := rfl

def Positive (m : GoMap K Int) : Prop := ∀ k n, m k = some n → 0 < n

theorem positive_empty : Positive (empty : GoMap K Int) := by
  intro k n h
  cases h

theorem Positive.count_nonneg {m : GoMap K Int} (h : Positive m) (k : K) : 0 ≤ count m k := by
  rw [count]
  cases hk : m k with
  | none => simp
  | some n => exact Int.le_of_lt (h k n hk)

variable [DecidableEq K]

def set (m : GoMap K V) (k : K) (v : V) : GoMap K V := Function.update m k (some v)

def delete (m : GoMap K V) (k : K) : GoMap K V := Function.update m k none

theorem set_apply (m : GoMap K V) (k : K) (v : V) (i : K) :
    set m k v i = if i = k then some v else m i := by
  by_cases h : i = k
  · subst h
    simp [set]
  · simp [set, h]

theorem delete_apply (m : GoMap K V) (k : K) (i : K) :
    delete m k i = if i = k then none else m i := by
  by_cases h : i = k
  · subst h
    simp [delete]
  · simp [delete, h]

theorem set_eq_some {m : GoMap K V} {k i : K} {v w : V} :
    set m k v i = some w ↔ (i = k ∧ w = v) ∨ (i ≠ k ∧ m i = some w) := by
  rw [set_apply]
  by_cases h : i = k
  · simp [h, eq_comm]
  · simp [h]

theorem delete_eq_some {m : GoMap K V} {k i : K} {w : V} :
    delete m k i = some w ↔ i ≠ k ∧ m i = some w := by
  rw [delete_apply]
  by_cases h : i = k <;> simp [h]

theorem foldl_delete_eq_some {α : Type} (f : α → K) (l : List α) (m : GoMap K V) {i : K} {w : V} :
    l.foldl (fun m a => delete m (f a)) m i = some w ↔ (∀ a ∈ l, f a ≠ i) ∧ m i = some w := by
  induction l generalizing m with
  | nil => simp
  | cons a l ih =>
      simp only [List.foldl_cons, ih, delete_eq_some, List.mem_cons, forall_eq_or_imp]
      constructor
      · rintro ⟨hl, ha, hm⟩
        exact ⟨⟨fun h => ha h.symm, hl⟩, hm⟩
      · rintro ⟨⟨ha, hl⟩, hm⟩
        exact ⟨hl, fun h => ha h.symm, hm⟩

/-- `m[k] = append(m[k], v)` -/
def push (m : GoMap K (List V)) (k : K) (v : V) : GoMap K (List V) := set m k (bucket m k ++ [v])

/-- A slice is stored, or its key deleted when nothing is left of it. -/
def store (m : GoMap K (List V)) (k : K) (l : List V) : GoMap K (List V) :=
  if l = [] then delete m k else set m k l

theorem bucket_push (m : GoMap K (List V)) (k : K) (v : V) (i : K) :
    bucket (push m k v) i = if i = k then bucket m k ++ [v] else bucket m i := by
  rw [bucket, push]
  rw [set_apply]
  by_cases h : i = k <;> simp [h, bucket]

theorem mem_bucket_push {m : GoMap K (List V)} {k i : K} {v w : V} :
    w ∈ bucket (push m k v) i ↔ w ∈ bucket m i ∨ (i = k ∧ w = v) := by
  rw [bucket_push]
  by_cases h : i = k <;> simp [h]

theorem bucket_store (m : GoMap K (List V)) (k : K) (l : List V) (i : K) :
    bucket (store m k l) i = if i = k then l else bucket m i := by
  unfold store bucket
  by_cases hl : l = []
  · rw [if_pos hl, delete_apply]
    by_cases h : i = k <;> simp [h, hl]
  · rw [if_neg hl, set_apply]
    by_cases h : i = k <;> simp [h]

theorem bucket_delete (m : GoMap K (List V)) (k i : K) :
    bucket (delete m k) i = if i = k then [] else bucket m i := by
  rw [bucket, delete_apply]
  split <;> rfl

def removeFirst (p : V → Bool) (m : GoMap K (List V)) (k : K) : GoMap K (List V) :=
  store m k ((bucket m k).eraseP p)

theorem bucket_removeFirst (p : V → Bool) (m : GoMap K (List V)) (k i : K) :
    bucket (removeFirst p m k) i = if i = k then (bucket m k).eraseP p else bucket m i :=
  bucket_store _ _ _ _

theorem NoEmpty.set {m : GoMap K (List V)} (h : NoEmpty m) {k : K} {l : List V} (hl : l ≠ []) :
    NoEmpty (set m k l) := by
  intro i
  rw [set_apply]
  by_cases hi : i = k
  · simpa [hi] using hl
  · simpa [hi] using h i

theorem NoEmpty.delete {m : GoMap K (List V)} (h : NoEmpty m) (k : K) :
    NoEmpty (Maps.delete m k) := by
  intro i
  rw [delete_apply]
  split
  · simp
  · exact h i

theorem NoEmpty.store {m : GoMap K (List V)} (h : NoEmpty m) (k : K) (l : List V) :
    NoEmpty (store m k l) := by
  rw [Maps.store]
  split
  · exact h.delete k
  · next hl => exact h.set hl

theorem NoEmpty.push {m : GoMap K (List V)} (h : NoEmpty m) (k : K) (v : V) :
    NoEmpty (push m k v) := h.set (by simp)

theorem nodup_bucket_push {m : GoMap K (List V)} {k : K} {v : V}
    (h : ∀ i, (bucket m i).Nodup) (hv : v ∉ bucket m k) (i : K) : (bucket (push m k v) i).Nodup := by
  rw [bucket_push]
  split
  · exact List.nodup_append_comm.mp (List.nodup_cons.mpr ⟨hv, h k⟩)
  · exact h i

/-- `m[k]++` -/
def incr (m : GoMap K Int) (k : K) : GoMap K Int := set m k (count m k + 1)

/-- `m[k]--`, and the key deleted when nothing positive is left. -/
def decr (m : GoMap K Int) (k : K) : GoMap K Int :=
  if count m k - 1 ≤ 0 then delete m k else set m k (count m k - 1)

theorem count_incr (m : GoMap K Int) (k i : K) :
    count (incr m k) i = if i = k then count m k + 1 else count m i := by
  rw [count, incr]
  rw [set_apply]
  by_cases h : i = k <;> simp [h, count]

theorem count_decr (m : GoMap K Int) (k i : K) :
    count (decr m k) i = if i = k then max (count m k - 1) 0 else count m i := by
  rw [decr]
  split
  · next hz =>
      unfold count at *
      rw [delete_apply]
      by_cases hi : i = k
      · rw [if_pos hi, if_pos hi, Int.max_eq_right hz]
        rfl
      · rw [if_neg hi, if_neg hi]
  · next hz =>
      unfold count at *
      rw [set_apply]
      by_cases hi : i = k
      · rw [if_pos hi, if_pos hi, Int.max_eq_left (Int.le_of_lt (Int.not_le.mp hz))]
        rfl
      · rw [if_neg hi, if_neg hi]

theorem Positive.incr {m : GoMap K Int} (h : Positive m) (k : K) : Positive (incr m k) := by
  intro i n hi
  have hn := h.count_nonneg k
  unfold Maps.incr at hi
  rw [set_eq_some] at hi
  obtain ⟨_, rfl⟩ | ⟨_, hi⟩ := hi
  · omega
  · exact h i n hi

theorem Positive.decr {m : GoMap K Int} (h : Positive m) (k : K) : Positive (decr m k) := by
  intro i n hi
  unfold Maps.decr at hi
  split at hi
  · rw [delete_eq_some] at hi
    exact h i n hi.2
  · rw [set_eq_some] at hi
    obtain ⟨_, rfl⟩ | ⟨_, hi⟩ := hi
    · omega
    · exact h i n hi

theorem count_foldl_incr (l : List K) (m : GoMap K Int) (k : K) :
    count (l.foldl incr m) k = count m k + l.count k := by
  induction l generalizing m with
  | nil => simp
  | cons a l ih =>
      rw [List.foldl_cons, ih, count_incr, List.count_cons]
      by_cases h : k = a
      · subst h
        simp
        omega
      · simp [h, Ne.symm h]

theorem count_foldl_decr (l : List K) {m : GoMap K Int} (h : Positive m) (k : K) :
    count (l.foldl decr m) k = max (count m k - l.count k) 0 := by
  induction l generalizing m with
  | nil =>
      have hk := h.count_nonneg k
      rw [List.foldl_nil, List.count_nil]
      omega
  | cons a l ih =>
      rw [List.foldl_cons, ih (h.decr a), count_decr, List.count_cons]
      by_cases hk : k = a
      · subst hk
        simp
        omega
      · simp [hk, Ne.symm hk]

theorem Positive.foldl_incr {m : GoMap K Int} (h : Positive m) (l : List K) :
    Positive (l.foldl Maps.incr m) := by
  induction l generalizing m with
  | nil => exact h
  | cons k l ih => exact ih (h.incr k)

theorem Positive.foldl_decr {m : GoMap K Int} (h : Positive m) (l : List K) :
    Positive (l.foldl Maps.decr m) := by
  induction l generalizing m with
  | nil => exact h
  | cons k l ih => exact ih (h.decr k)

def pushAll (m : GoMap K (List V)) (keys : List K) (v : V) : GoMap K (List V) :=
  keys.foldl (fun m k => push m k v) m

def removeAll (p : V → Bool) (m : GoMap K (List V)) (keys : List K) : GoMap K (List V) :=
  keys.foldl (removeFirst p) m

theorem NoEmpty.pushAll {m : GoMap K (List V)} (h : NoEmpty m) (keys : List K) (v : V) :
    NoEmpty (pushAll m keys v) := by
  induction keys generalizing m with
  | nil => exact h
  | cons k keys ih => exact ih (h.push k v)

theorem NoEmpty.removeAll {m : GoMap K (List V)} (h : NoEmpty m) (p : V → Bool) (keys : List K) :
    NoEmpty (removeAll p m keys) := by
  induction keys generalizing m with
  | nil => exact h
  | cons k keys ih => exact ih (h.store k _)

theorem bucket_pushAll (m : GoMap K (List V)) (keys : List K) (v : V) (i : K) :
    bucket (pushAll m keys v) i = bucket m i ++ List.replicate (keys.count i) v := by
  induction keys generalizing m with
  | nil => simp [pushAll]
  | cons k keys ih =>
      change bucket (pushAll (push m k v) keys v) i = _
      rw [ih, bucket_push, List.count_cons]
      by_cases h : i = k
      · subst h
        simp [List.replicate_succ]
      · simp [h, Ne.symm h]

theorem mem_bucket_pushAll {m : GoMap K (List V)} {keys : List K} {v w : V} {i : K} :
    w ∈ bucket (pushAll m keys v) i ↔ w ∈ bucket m i ∨ (i ∈ keys ∧ w = v) := by
  rw [bucket_pushAll, List.mem_append, List.mem_replicate, ne_eq, List.count_eq_zero, not_not]

theorem length_bucket_removeAll (p : V → Bool) (m : GoMap K (List V)) (keys : List K) (i : K) :
    (bucket m i).length ≤ (bucket (removeAll p m keys) i).length + keys.count i := by
  induction keys generalizing m with
  | nil => simp [removeAll]
  | cons a keys ih =>
      have hrest := ih (removeFirst p m a)
      rw [bucket_removeFirst] at hrest
      change _ ≤ (bucket (removeAll p (removeFirst p m a) keys) i).length + _
      rw [List.count_cons]
      by_cases h : i = a
      · subst h
        have herase := List.length_eraseP_le (p := p) (l := bucket m i)
        have hone : (bucket m i).length ≤ ((bucket m i).eraseP p).length + 1 := by
          rw [List.length_eraseP]
          split <;> omega
        simp at hrest ⊢
        omega
      · simp [h, Ne.symm h] at hrest ⊢
        exact hrest

variable [DecidableEq V]

theorem count_bucket_pushAll (m : GoMap K (List V)) (keys : List K) (v w : V) (i : K) :
    (bucket (pushAll m keys v) i).count w =
      (bucket m i).count w + if w = v then keys.count i else 0 := by
  rw [bucket_pushAll, List.count_append, List.count_replicate]
  by_cases h : w = v
  · simp [h]
  · simp [h, Ne.symm h]

theorem count_bucket_removeAll (m : GoMap K (List V)) (keys : List K) (v w : V) (i : K) :
    (bucket (removeAll (· == v) m keys) i).count w =
      (bucket m i).count w - if w = v then keys.count i else 0 := by
  induction keys generalizing m with
  | nil => simp [removeAll]
  | cons a keys ih =>
      have herase : (bucket m a).eraseP (· == v) = (bucket m a).erase v := by
        rw [List.erase_eq_eraseP]
        congr 1
        funext x
        exact Bool.beq_comm
      change (bucket (removeAll (· == v) (removeFirst (· == v) m a) keys) i).count w = _
      rw [ih, bucket_removeFirst, herase, List.count_cons]
      by_cases hk : i = a <;> by_cases hw : w = v
      · subst hk hw
        simp [List.count_erase_self]
        omega
      · subst hk
        simp [List.count_erase_of_ne hw, hw]
      · subst hw
        simp [hk, Ne.symm hk]
      · simp [hk, hw]

theorem sum_map_eq_add {α : Type} {l : List α} (hnd : l.Nodup) {r : α} (hr : r ∈ l)
    {f g : α → Int} {d : Int} (hself : g r = f r + d) (hother : ∀ q ∈ l, q ≠ r → g q = f q) :
    (l.map g).sum = (l.map f).sum + d := by
  induction l with
  | nil => cases hr
  | cons a l ih =>
      obtain ⟨ha, hl⟩ := List.nodup_cons.mp hnd
      simp only [List.map_cons, List.sum_cons]
      rcases List.mem_cons.mp hr with rfl | hr
      · have hrest : l.map g = l.map f := List.map_congr_left fun q hq =>
          hother q (List.mem_cons_of_mem _ hq) fun hqr => ha (hqr ▸ hq)
        rw [hrest, hself]
        omega
      · rw [ih hl hr fun q hq => hother q (List.mem_cons_of_mem _ hq),
          hother a List.mem_cons_self fun har => ha (har ▸ hr)]
        omega

theorem nodup_eraseDups (l : List V) : l.eraseDups.Nodup := by
  induction hn : l.length using Nat.strong_induction_on generalizing l with
  | _ n ih =>
      cases l with
      | nil => exact List.nodup_nil
      | cons a l =>
          rw [List.eraseDups_cons]
          have hlt : (l.filter fun b => !b == a).length < n := by
            have hle := List.length_filter_le (fun b => !b == a) l
            rw [List.length_cons] at hn
            omega
          refine List.nodup_cons.mpr ⟨?_, ih _ hlt _ rfl⟩
          simp

theorem eraseDups_of_nodup {l : List V} (h : l.Nodup) : l.eraseDups = l := by
  induction l with
  | nil => rfl
  | cons a l ih =>
      obtain ⟨ha, hl⟩ := List.nodup_cons.mp h
      have hsame : l.filter (fun b => !b == a) = l := by
        rw [List.filter_eq_self]
        intro b hb
        have hne : b ≠ a := fun hba => ha (hba ▸ hb)
        simp [hne]
      rw [List.eraseDups_cons, hsame, ih hl]

theorem count_eraseP_of_find? {p : V → Bool} {l : List V} {v : V} (h : l.find? p = some v) :
    (l.eraseP p).count v = l.count v - 1 := by
  induction l with
  | nil => cases h
  | cons a l ih =>
      by_cases ha : p a = true
      · rw [List.find?_cons_of_pos ha] at h
        cases h
        rw [List.eraseP_cons_of_pos ha, List.count_cons_self, Nat.add_sub_cancel]
      · rw [List.find?_cons_of_neg ha] at h
        have hne : a ≠ v := fun hav => ha (hav ▸ List.find?_some h)
        rw [List.eraseP_cons_of_neg ha, List.count_cons_of_ne hne, List.count_cons_of_ne hne, ih h]

omit [DecidableEq V] in
theorem find?_eraseP {p q : V → Bool} (h : ∀ v, p v = true → q v = false) (l : List V) :
    (l.eraseP p).find? q = l.find? q := by
  induction l with
  | nil => rfl
  | cons a l ih =>
      by_cases ha : p a = true
      · rw [List.eraseP_cons_of_pos ha, List.find?_cons_of_neg (by simp [h a ha])]
      · rw [List.eraseP_cons_of_neg ha, List.find?_cons, List.find?_cons, ih]

omit [DecidableEq V] in
theorem bucket_removeAll (p : V → Bool) (m : GoMap K (List V)) {keys : List K} (hnd : keys.Nodup) (i : K) :
    bucket (removeAll p m keys) i = if i ∈ keys then (bucket m i).eraseP p else bucket m i := by
  induction keys generalizing m with
  | nil => rfl
  | cons k keys ih =>
      obtain ⟨hk, hkeys⟩ := List.nodup_cons.mp hnd
      change bucket (removeAll p (removeFirst p m k) keys) i = _
      rw [ih _ hkeys, bucket_removeFirst]
      by_cases hi : i = k
      · subst hi
        simp [hk]
      · simp [hi]

end MeshcoreAnalyzer.Maps
