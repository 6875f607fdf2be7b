import Mathlib.Data.List.Nodup

namespace MeshcoreAnalyzer.RowUpdates

/-! `UPDATE … WHERE key = ?`, one statement after another. A statement is for a row, the one that it was
made from; it changes the rows that have the key. -/

variable {A K : Type} [DecidableEq K] (key : A → K) (act : A → A → A)

/-- What the statement for `u` makes of a row. -/
def updateOne (a u : A) : A := if key a = key u then act u a else a

def update (rows : List A) (u : A) : List A := rows.map (updateOne key act · u)

structure Settles : Prop where
  key_act : ∀ u a, key (act u a) = key a
  again : ∀ u a, act u (act u a) = act u a

variable {key act} {rows done new us : List A}

theorem foldl_update (us rows : List A) :
    us.foldl (update key act) rows = rows.map (us.foldl (updateOne key act)) := by
  induction us generalizing rows with
  | nil => exact (List.map_id rows).symm
  | cons u us ih =>
      rw [List.foldl_cons, ih, update, List.map_map]
      rfl

theorem filter_map_of_fixed {f : A → A} {q : A → Bool} (hq : ∀ a ∈ rows, q (f a) = q a)
    (hf : ∀ a ∈ rows, q a = true → f a = a) : (rows.map f).filter q = rows.filter q := by
  induction rows with
  | nil => rfl
  | cons a rows ih =>
      have hrest := ih (fun b hb => hq b (List.mem_cons_of_mem a hb)) fun b hb => hf b (List.mem_cons_of_mem a hb)
      rw [List.map_cons, List.filter_cons, List.filter_cons, hq a List.mem_cons_self, hrest]
      split
      · next ha => rw [hf a List.mem_cons_self ha]
      · rfl

variable [DecidableEq A]

theorem foldl_updateOne (h : Settles key act) {r s : A} (hs : key s = key r) (hus : ∀ u ∈ us, key u = key r → u = r) :
    us.foldl (updateOne key act) s = if r ∈ us then act r s else s := by
  induction us generalizing s with
  | nil => rfl
  | cons u us ih =>
      have hrest : ∀ v ∈ us, key v = key r → v = r := fun v hv => hus v (List.mem_cons_of_mem u hv)
      rw [List.foldl_cons]
      by_cases hu : key u = key r
      · obtain rfl := hus u List.mem_cons_self hu
        rw [updateOne, if_pos hs, ih ((h.key_act u s).trans hs) hrest, if_pos List.mem_cons_self, h.again, ite_self]
      · have hne : r ≠ u := fun hru => hu (congrArg key hru.symm)
        have hmem : r ∈ u :: us ↔ r ∈ us := by rw [List.mem_cons, or_iff_right hne]
        rw [updateOne, if_neg fun hkey => hu (hkey.symm.trans hs), ih hs hrest]
        exact if_congr hmem.symm rfl rfl

def applied (act : A → A → A) (done rows : List A) : List A := rows.map fun a => if a ∈ done then act a a else a

theorem applied_nil : applied act [] rows = rows := List.map_id rows

theorem foldl_update_applied (h : Settles key act) (hkeys : (rows.map key).Nodup) (hnew : ∀ u ∈ new, u ∈ rows)
    (hfresh : ∀ u ∈ new, u ∉ done) :
    new.foldl (update key act) (applied act done rows) = applied act (done ++ new) rows := by
  rw [foldl_update, applied, applied, List.map_map]
  apply List.map_congr_left
  intro a ha
  have hunique : ∀ u ∈ new, key u = key a → u = a := fun u hu => List.inj_on_of_nodup_map hkeys (hnew u hu) ha
  rw [Function.comp_apply]
  by_cases hdone : a ∈ done
  · have hnot : a ∉ new := fun hmem => hfresh a hmem hdone
    rw [if_pos hdone, if_pos (List.mem_append_left _ hdone), foldl_updateOne h (h.key_act a a) hunique, if_neg hnot]
  · rw [if_neg hdone, foldl_updateOne h rfl hunique]
    exact if_congr (by rw [List.mem_append, or_iff_right hdone]) rfl rfl

omit [DecidableEq K] in
theorem map_key_applied (h : Settles key act) : (applied act done rows).map key = rows.map key := by
  rw [applied, List.map_map]
  apply List.map_congr_left
  intro a _
  rw [Function.comp_apply]
  split
  · exact h.key_act a a
  · rfl

theorem filter_applied {q : A → Bool} (hact : ∀ a, q (act a a) = false) :
    (applied act done rows).filter q = rows.filter fun a => q a && decide (a ∉ done) := by
  rw [applied, List.filter_map]
  induction rows with
  | nil => rfl
  | cons a rows ih =>
      rw [List.filter_cons, List.filter_cons, Function.comp_apply]
      by_cases ha : a ∈ done
      · simpa [ha, hact a] using ih
      · by_cases hq : q a = true
        · simpa [ha, hq] using ih
        · simpa [ha, hq] using ih

end MeshcoreAnalyzer.RowUpdates
