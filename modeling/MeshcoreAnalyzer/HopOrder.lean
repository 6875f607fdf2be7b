import MeshcoreAnalyzer.HopTiers
import Mathlib.Data.List.Nodup
import Mathlib.Tactic.Linarith

namespace MeshcoreAnalyzer.HopTiers

open Maps Neighbors PacketStore Picks

theorem raise_perm (x : Scored) (l : List Scored) : ((raise x l).1 :: (raise x l).2).Perm (x :: l) := by
  induction l generalizing x with
  | nil => exact List.Perm.refl _
  | cons y ys ih =>
      rw [raise]
      split
      · exact (List.Perm.swap _ _ _).trans ((ih y).cons x)
      · exact ((List.Perm.swap _ _ _).trans ((ih x).cons y)).trans (List.Perm.swap _ _ _)

theorem le_raise (x : Scored) (l : List Scored) : ∀ y ∈ x :: l, y.score ≤ (raise x l).1.score := by
  induction l generalizing x with
  | nil => simp [raise]
  | cons y ys ih =>
      intro z hz
      rw [raise]
      split
      · next h =>
          rcases List.mem_cons.mp hz with rfl | hz
          · exact h.le.trans (ih y y List.mem_cons_self)
          · exact ih y z hz
      · next h =>
          rcases List.mem_cons.mp hz with rfl | hz
          · exact ih z z List.mem_cons_self
          · rcases List.mem_cons.mp hz with rfl | hz
            · exact (not_lt.mp h).trans (ih x x List.mem_cons_self)
            · exact ih x z (List.mem_cons_of_mem _ hz)

theorem exchangeSort_perm (n : Nat) (l : List Scored) : (exchangeSort n l).Perm l := by
  induction n generalizing l with
  | zero => cases l <;> exact List.Perm.refl _
  | succ n ih =>
      cases l with
      | nil => exact List.Perm.refl _
      | cons x xs => exact ((ih _).cons _).trans (raise_perm x xs)

theorem exchangeSort_sorted {n : Nat} {l : List Scored} (h : l.length ≤ n + 1) :
    (exchangeSort n l).Pairwise fun a b => b.score ≤ a.score := by
  induction n generalizing l with
  | zero =>
      cases l with
      | nil => exact List.Pairwise.nil
      | cons x xs =>
          have hnil : xs = [] := List.length_eq_zero_iff.mp (by simpa using h)
          rw [hnil]
          exact List.pairwise_singleton _ _
  | succ n ih =>
      cases l with
      | nil => exact List.Pairwise.nil
      | cons x xs =>
          have hperm := raise_perm x xs
          refine List.pairwise_cons.mpr ⟨fun y hy => ?_, ih ?_⟩
          · apply le_raise x xs y
            exact hperm.mem_iff.mp (List.mem_cons_of_mem _ ((exchangeSort_perm n _).mem_iff.mp hy))
          · have := hperm.length_eq
            simp only [List.length_cons] at this h
            omega

/-- The entry with three times the score of every other one, and enough observations. -/
structure Decisive (l : List Scored) (x : Scored) : Prop where
  mem : x ∈ l
  count : NeighborGraph.affinityMinObservations ≤ x.count
  ratio : ∀ y ∈ l, y.idx ≠ x.idx → NeighborGraph.affinityConfidenceRatio * y.score ≤ x.score

theorem decisive_sorted_iff {l : List Scored} (hnd : (l.map Scored.idx).Nodup)
    (hsorted : l.Pairwise fun a b => b.score ≤ a.score) (hpos : ∀ x ∈ l, 0 < x.score) (x : Scored) :
    decisive l = some x ↔ Decisive l x := by
  have hratio : NeighborGraph.affinityConfidenceRatio = 3 := rfl
  cases l with
  | nil =>
      constructor
      · intro h
        cases h
      · intro h
        cases h.mem
  | cons best rest =>
      have hhead : Decisive (best :: rest) x → best = x := by
        intro h
        -- nothing before it has a third of its score
        rcases List.mem_cons.mp h.mem with rfl | hx
        · rfl
        · have hne : best.idx ≠ x.idx := fun heq =>
            (List.nodup_cons.mp hnd).1 (List.mem_map.mpr ⟨x, hx, heq.symm⟩)
          have hle := (List.pairwise_cons.mp hsorted).1 x hx
          have hthird := h.ratio best List.mem_cons_self hne
          have := hpos best List.mem_cons_self
          rw [hratio] at hthird
          exact absurd hthird (by linarith)
      cases rest with
      | nil =>
          rw [decisive]
          constructor
          · intro h
            split at h
            · next hcount =>
                obtain rfl := Option.some.inj h
                refine ⟨List.mem_singleton_self _, hcount, fun y hy hne => ?_⟩
                rw [List.mem_singleton.mp hy] at hne
                exact absurd rfl hne
            · cases h
          · intro h
            rw [hhead h, if_pos h.count]
      | cons next rest =>
          rw [decisive]
          constructor
          · intro h
            split at h
            · next hcond =>
                obtain rfl := Option.some.inj h
                refine ⟨List.mem_cons_self, hcond.1, fun y hy hne => ?_⟩
                rcases List.mem_cons.mp hy with rfl | hy
                · exact absurd rfl hne
                · have hle : y.score ≤ next.score := by
                    rcases List.mem_cons.mp hy with rfl | hy
                    · exact le_refl _
                    · exact (List.pairwise_cons.mp (List.pairwise_cons.mp hsorted).2).1 y hy
                  have hnext := hcond.2
                  rw [hratio] at hnext ⊢
                  linarith
            · cases h
          · intro h
            obtain rfl := hhead h
            have hne : next.idx ≠ best.idx := fun heq =>
              (List.nodup_cons.mp hnd).1 (by simp [← heq])
            exact if_pos ⟨h.count, h.ratio next (by simp) hne⟩

theorem decisive_exchangeSort_iff {l : List Scored} (hnd : (l.map Scored.idx).Nodup) (hpos : ∀ x ∈ l, 0 < x.score)
    (x : Scored) : decisive (exchangeSort (l.length - 1) l) = some x ↔ Decisive l x := by
  have hperm := exchangeSort_perm (l.length - 1) l
  rw [decisive_sorted_iff ((hperm.map _).nodup_iff.mpr hnd) (exchangeSort_sorted (by omega))
    fun y hy => hpos y (hperm.mem_iff.mp hy)]
  constructor
  · exact fun h => ⟨hperm.mem_iff.mp h.mem, h.count, fun y hy => h.ratio y (hperm.mem_iff.mpr hy)⟩
  · exact fun h => ⟨hperm.mem_iff.mpr h.mem, h.count, fun y hy => h.ratio y (hperm.mem_iff.mp hy)⟩

def keep (best : ℚ × Nat) (link : Link) : ℚ × Nat := if best.1 < link.score then (link.score, link.count) else best

def bestLink (ls : List Link) : ℚ × Nat := ls.foldl keep (0, 0)

theorem foldl_keep {b : ℚ × Nat} (hb : 0 ≤ b.1) (ls : List Link) :
    ls.foldl keep b = if b.1 < (bestLink ls).1 then bestLink ls else b := by
  induction ls using List.reverseRecOn with
  | nil => simp [bestLink, not_lt.mpr hb]
  | append_singleton ls l ih =>
      have hsnoc : bestLink (ls ++ [l]) = keep (bestLink ls) l := by simp [bestLink]
      rw [List.foldl_append, ih, hsnoc]
      simp only [List.foldl_cons, List.foldl_nil, keep]
      by_cases h1 : b.1 < (bestLink ls).1
      · by_cases h2 : (bestLink ls).1 < l.score
        · simp [h1, h2, h1.trans h2]
        · simp [h1, h2]
      · by_cases h2 : b.1 < l.score
        · have h3 : (bestLink ls).1 < l.score := (not_lt.mp h1).trans_lt h2
          simp [h1, h2, h3]
        · by_cases h3 : (bestLink ls).1 < l.score
          · simp [h1, h2, h3]
          · simp [h1, h2, h3]

theorem bestLink_nonneg (ls : List Link) : 0 ≤ (bestLink ls).1 := by
  induction ls using List.reverseRecOn with
  | nil => exact le_refl _
  | append_singleton ls l ih =>
      have hsnoc : bestLink (ls ++ [l]) = keep (bestLink ls) l := by simp [bestLink]
      rw [hsnoc, keep]
      split
      · next h => exact ih.trans h.le
      · exact ih

theorem bestLink_append (ls ls' : List Link) :
    bestLink (ls ++ ls') = if (bestLink ls).1 < (bestLink ls').1 then bestLink ls' else bestLink ls := by
  rw [bestLink, List.foldl_append]
  exact foldl_keep (bestLink_nonneg ls) ls'

theorem bestLink_append_fst (ls ls' : List Link) :
    (bestLink (ls ++ ls')).1 = max (bestLink ls).1 (bestLink ls').1 := by
  rw [bestLink_append]
  split
  · next h => exact (max_eq_right h.le).symm
  · next h => exact (max_eq_left (not_lt.mp h)).symm

section

variable (w : Figures) (graph : Option NeighborGraph) (p : String)

def linksTo (ctx : List String) : List Link :=
  (graph.toList.flatMap fun g => (ctx.map toLower).flatMap (links w g)).filter fun l => l.otherPK = p

theorem linksTo_append (ctx ctx' : List String) :
    linksTo w graph p (ctx ++ ctx') = linksTo w graph p ctx ++ linksTo w graph p ctx' := by
  unfold linksTo
  cases graph <;> simp

def strength (ctx : List String) : ℚ := (bestLink (linksTo w graph p ctx)).1

theorem strength_append (ctx ctx' : List String) :
    strength w graph p (ctx ++ ctx') = max (strength w graph p ctx) (strength w graph p ctx') := by
  rw [strength, linksTo_append, bestLink_append_fst]
  rfl

theorem strength_cons (c : String) (ctx : List String) :
    strength w graph p (c :: ctx) = max (strength w graph p [c]) (strength w graph p ctx) :=
  strength_append w graph p [c] ctx

theorem strength_perm {ctx ctx' : List String} (h : ctx'.Perm ctx) :
    strength w graph p ctx' = strength w graph p ctx := by
  induction h with
  | nil => rfl
  | cons c _ ih => rw [strength_cons, ih, ← strength_cons]
  | swap c c' l =>
      rw [strength_cons, strength_cons w graph p c, ← max_assoc, max_comm (strength w graph p [c']), max_assoc,
        ← strength_cons, ← strength_cons]
  | trans _ _ ih ih' => exact ih.trans ih'

def Attains (ctx : List String) (c : String) : Prop := c ∈ ctx ∧ strength w graph p [c] = strength w graph p ctx

def heardOf (c : String) : Nat := (bestLink (linksTo w graph p [c])).2

theorem exists_attains {ctx : List String} (h : 0 < strength w graph p ctx) :
    ∃ c, Attains w graph p ctx c ∧ (bestLink (linksTo w graph p ctx)).2 = heardOf w graph p c := by
  induction ctx with
  | nil =>
      have hnil : linksTo w graph p [] = [] := by
        rw [linksTo]
        cases graph <;> simp
      rw [strength, hnil] at h
      exact absurd h (lt_irrefl _)
  | cons c ctx ih =>
      have happ : bestLink (linksTo w graph p (c :: ctx)) =
          if strength w graph p [c] < strength w graph p ctx then bestLink (linksTo w graph p ctx)
          else bestLink (linksTo w graph p [c]) := by
        rw [← List.singleton_append, linksTo_append, bestLink_append]
        rfl
      by_cases hlt : strength w graph p [c] < strength w graph p ctx
      · obtain ⟨c', hc', hcount⟩ := ih ((bestLink_nonneg _).trans_lt hlt)
        refine ⟨c', ⟨List.mem_cons_of_mem _ hc'.1, ?_⟩, ?_⟩
        · rw [hc'.2, strength_cons, max_eq_right hlt.le]
        · rw [happ, if_pos hlt, hcount]
      · refine ⟨c, ⟨List.mem_cons_self, ?_⟩, ?_⟩
        · rw [strength_cons w graph p c ctx, max_eq_left (not_lt.mp hlt)]
        · rw [happ, if_neg hlt, heardOf]

theorem bestLink_of_attains {ctx : List String} {c : String} (h : Attains w graph p (c :: ctx) c) :
    (bestLink (linksTo w graph p (c :: ctx))).2 = heardOf w graph p c := by
  have hle : ¬ strength w graph p [c] < strength w graph p ctx := by
    have h2 := h.2
    rw [strength_cons w graph p c ctx] at h2
    rw [h2]
    exact not_lt.mpr (le_max_right _ _)
  rw [← List.singleton_append, linksTo_append, bestLink_append]
  exact congrArg Prod.snd (if_neg hle)

end

def keyOf (n : Node) : String := toLower n.publicKey

def lastWith (p : String) (candidates : List Node) : Option Node := (candidates.filter fun n => keyOf n = p).getLast?

section

variable {candidates : List Node} {p q : String} {i : Nat} {n : Node}

theorem candByPK_snoc (l : List Node) (n : Node) :
    candByPK (l ++ [n]) = Maps.set (candByPK l) (keyOf n) l.length := by
  rw [candByPK, List.zipIdx_append, List.foldl_append]
  simp [candByPK, keyOf]

theorem candByPK_spec (h : candByPK candidates p = some i) :
    i < candidates.length ∧ candidates[i]? = lastWith p candidates := by
  induction candidates using List.reverseRecOn with
  | nil => cases h
  | append_singleton l n ih =>
      rw [candByPK_snoc, Maps.set_apply] at h
      rw [lastWith, List.filter_append, List.length_append]
      by_cases hn : p = keyOf n
      · rw [if_pos hn] at h
        obtain rfl := Option.some.inj h
        simp [hn]
      · rw [if_neg hn] at h
        obtain ⟨hlt, hget⟩ := ih h
        rw [List.getElem?_append_left hlt, hget]
        refine ⟨by omega, ?_⟩
        simp [Ne.symm hn, lastWith]

theorem key_of_lastWith (h : lastWith p candidates = some n) : n ∈ candidates ∧ keyOf n = p := by
  have := List.mem_of_getLast? h
  simpa using this

theorem exists_candByPK (hn : n ∈ candidates) : ∃ i, candByPK candidates (keyOf n) = some i := by
  induction candidates using List.reverseRecOn with
  | nil => cases hn
  | append_singleton l m ih =>
      rw [candByPK_snoc, Maps.set_apply]
      by_cases hkey : keyOf n = keyOf m
      · exact ⟨l.length, if_pos hkey⟩
      · rw [if_neg hkey]
        rcases List.mem_append.mp hn with hn | hn
        · exact ih hn
        · exact absurd (congrArg keyOf (List.mem_singleton.mp hn)) hkey

theorem exists_lastWith (hn : n ∈ candidates) : ∃ m, lastWith (keyOf n) candidates = some m := by
  obtain ⟨i, hi⟩ := exists_candByPK hn
  obtain ⟨hlt, hget⟩ := candByPK_spec hi
  exact ⟨candidates[i], hget ▸ List.getElem?_eq_getElem hlt⟩

theorem candByPK_inj (hp : candByPK candidates p = some i) (hq : candByPK candidates q = some i) : p = q := by
  obtain ⟨hlt, hget⟩ := candByPK_spec hp
  have hget' := (candByPK_spec hq).2
  rw [List.getElem?_eq_getElem hlt] at hget hget'
  rw [← (key_of_lastWith hget.symm).2, (key_of_lastWith hget'.symm).2]

end

section

variable {byPK : GoMap String Nat} {p : String} {i : Nat}

theorem scoreLink_of_ne {best : Nat → ℚ × Nat} {l : Link} (h : byPK l.otherPK ≠ some i) :
    scoreLink byPK best l i = best i := by
  cases hl : byPK l.otherPK with
  | none => simp only [scoreLink, hl]
  | some ci =>
      have hne : i ≠ ci := fun he => h (he ▸ hl)
      simp only [scoreLink, hl]
      split
      · exact Function.update_of_ne hne _ _
      · rfl

theorem foldl_scoreLink (hp : byPK p = some i) (hinj : ∀ q, byPK q = some i → q = p) (ls : List Link)
    (best : Nat → ℚ × Nat) :
    ls.foldl (scoreLink byPK) best i = (ls.filter fun l => l.otherPK = p).foldl keep (best i) := by
  induction ls generalizing best with
  | nil => rfl
  | cons l ls ih =>
      rw [List.foldl_cons, ih]
      by_cases hl : l.otherPK = p
      · have hstep : scoreLink byPK best l i = keep (best i) l := by
          simp only [scoreLink, hl, hp, keep]
          split <;> simp
        simp [hl, hstep]
      · have hstep : scoreLink byPK best l i = best i := scoreLink_of_ne fun h => hl (hinj _ h)
        simp [hl, hstep]

theorem foldl_scoreLink_of_none (hnone : ∀ q, byPK q ≠ some i) (ls : List Link) (best : Nat → ℚ × Nat) :
    ls.foldl (scoreLink byPK) best i = best i := by
  induction ls generalizing best with
  | nil => rfl
  | cons l ls ih =>
      rw [List.foldl_cons, ih]
      exact scoreLink_of_ne (hnone _)

end

section

variable {w : Figures} {g : NeighborGraph} {candidates : List Node} {ctx : List String} {x : Scored}

theorem mem_scores : x ∈ scores w g candidates (ctx.map toLower) ↔
    ∃ p, candByPK candidates p = some x.idx ∧ 0 < x.score ∧ bestLink (linksTo w (some g) p ctx) = (x.score, x.count) := by
  have hlinks : ∀ p, linksTo w (some g) p ctx =
      ((ctx.map toLower).flatMap (links w g)).filter fun l => l.otherPK = p := fun p => by simp [linksTo]
  rw [scores]
  simp only [List.mem_filterMap, List.mem_range, hlinks]
  constructor
  · rintro ⟨i, hi, h⟩
    split at h
    · next hpos =>
        obtain rfl := Option.some.inj h
        by_cases hex : ∃ p, candByPK candidates p = some i
        · obtain ⟨p, hp⟩ := hex
          have hfold := foldl_scoreLink hp (fun q hq => candByPK_inj hq hp) ((ctx.map toLower).flatMap (links w g))
            fun _ => (0, 0)
          exact ⟨p, hp, hpos, hfold.symm⟩
        · rw [foldl_scoreLink_of_none fun q hq => hex ⟨q, hq⟩] at hpos
          exact absurd hpos (lt_irrefl _)
    · cases h
  · rintro ⟨p, hp, hpos, hbest⟩
    refine ⟨x.idx, (candByPK_spec hp).1, ?_⟩
    rw [foldl_scoreLink hp fun q hq => candByPK_inj hq hp]
    rw [bestLink] at hbest
    simp [hbest, hpos]

theorem nodup_scores : ((scores w g candidates (ctx.map toLower)).map Scored.idx).Nodup := by
  rw [scores]
  rw [List.map_filterMap]
  apply List.Nodup.filterMap _ List.nodup_range
  intro i j k hi hj
  have hidx : ∀ {i : Nat} {s : ℚ × Nat} {k : Nat},
      k ∈ (if 0 < s.1 then some (⟨i, s.1, s.2⟩ : Scored) else none).map Scored.idx → i = k := by
    intro i s k h
    split at h
    · simpa using h
    · cases h
  exact (hidx hi).trans (hidx hj).symm

end

section

variable {w : Figures} {graph : Option NeighborGraph} {candidates : List Node} {ctx : List String} {p : String} {n : Node}

variable (w graph candidates ctx p) in
/-- The key of a candidate that is three times as strong as every other one. -/
structure Outstanding : Prop where
  listed : ∃ n ∈ candidates, keyOf n = p
  positive : 0 < strength w graph p ctx
  ratio : ∀ n ∈ candidates, keyOf n ≠ p →
    NeighborGraph.affinityConfidenceRatio * strength w graph (keyOf n) ctx ≤ strength w graph p ctx

theorem Outstanding.unique {q : String} (hp : Outstanding w graph candidates ctx p)
    (hq : Outstanding w graph candidates ctx q) : p = q := by
  by_contra hne
  obtain ⟨n, hn, rfl⟩ := hp.listed
  obtain ⟨m, hm, rfl⟩ := hq.listed
  have h1 := hp.ratio m hm (Ne.symm hne)
  have h2 := hq.ratio n hn hne
  have hratio : NeighborGraph.affinityConfidenceRatio = 3 := rfl
  have hpos := hp.positive
  rw [hratio] at h1 h2
  linarith

theorem Outstanding.perm {candidates' : List Node} {ctx' : List String} (h : Outstanding w graph candidates ctx p)
    (hc : candidates'.Perm candidates) (hx : ctx'.Perm ctx) : Outstanding w graph candidates' ctx' p := by
  obtain ⟨n, hn, hkey⟩ := h.listed
  refine ⟨⟨n, hc.mem_iff.mpr hn, hkey⟩, ?_, fun m hm hne => ?_⟩
  · rw [strength_perm w graph p hx]
    exact h.positive
  · rw [strength_perm w graph p hx, strength_perm w graph _ hx]
    exact h.ratio m (hc.mem_iff.mp hm) hne

theorem scores_pos {g : NeighborGraph} {x : Scored} (hx : x ∈ scores w g candidates (ctx.map toLower)) : 0 < x.score := by
  obtain ⟨p, -, hpos, -⟩ := mem_scores.mp hx
  exact hpos

theorem Decisive.outstanding {g : NeighborGraph} {x : Scored}
    (hx : Decisive (scores w g candidates (ctx.map toLower)) x) (hp : candByPK candidates p = some x.idx)
    (hpos : 0 < x.score) (hstr : strength w (some g) p ctx = x.score) :
    Outstanding w (some g) candidates ctx p := by
  obtain ⟨hlt, hget⟩ := candByPK_spec hp
  rw [List.getElem?_eq_getElem hlt] at hget
  refine ⟨⟨_, key_of_lastWith hget.symm⟩, hstr.symm ▸ hpos, fun m hm hne => ?_⟩
  rw [hstr]
  by_cases hs : 0 < strength w (some g) (keyOf m) ctx
  · obtain ⟨j, hj⟩ := exists_candByPK hm
    have hy : (⟨j, strength w (some g) (keyOf m) ctx, (bestLink (linksTo w (some g) (keyOf m) ctx)).2⟩ : Scored) ∈
        scores w g candidates (ctx.map toLower) := mem_scores.mpr ⟨keyOf m, hj, hs, rfl⟩
    have hother : j ≠ x.idx := fun hidx => by
      rw [hidx] at hj
      exact hne (candByPK_inj hj hp)
    have hratio := hx.ratio _ hy hother
    exact hratio
  · have hzero : strength w (some g) (keyOf m) ctx = 0 := le_antisymm (not_lt.mp hs) (bestLink_nonneg _)
    rw [hzero, mul_zero]
    exact hpos.le

theorem Outstanding.decisive {g : NeighborGraph} {i : Nat} (h : Outstanding w (some g) candidates ctx p)
    (hi : candByPK candidates p = some i)
    (hcount : NeighborGraph.affinityMinObservations ≤ (bestLink (linksTo w (some g) p ctx)).2) :
    Decisive (scores w g candidates (ctx.map toLower))
      ⟨i, strength w (some g) p ctx, (bestLink (linksTo w (some g) p ctx)).2⟩ := by
  refine ⟨mem_scores.mpr ⟨p, hi, h.positive, rfl⟩, hcount, fun y hy hne => ?_⟩
  obtain ⟨q, hq, -, hbest⟩ := mem_scores.mp hy
  obtain ⟨hlt, hget⟩ := candByPK_spec hq
  rw [List.getElem?_eq_getElem hlt] at hget
  obtain ⟨hmem, rfl⟩ := key_of_lastWith hget.symm
  have hother : keyOf candidates[y.idx] ≠ p := fun hkey => by
    rw [hkey] at hq
    exact hne (Option.some.inj (hq.symm.trans hi))
  have hratio := h.ratio _ hmem hother
  rw [strength, hbest] at hratio
  exact hratio

theorem affinity_iff : (∃ s, affinity w graph candidates ctx = some (n, s)) ↔
    ∃ p, Outstanding w graph candidates ctx p ∧
      NeighborGraph.affinityMinObservations ≤ (bestLink (linksTo w graph p ctx)).2 ∧
      lastWith p candidates = some n := by
  cases graph with
  | none =>
      constructor
      · rintro ⟨s, h⟩
        cases h
      · rintro ⟨p, h, -⟩
        exact absurd h.positive (lt_irrefl _)
  | some g =>
      have hnd : ((scores w g candidates (ctx.map toLower)).map Scored.idx).Nodup := nodup_scores
      have hdec := decisive_exchangeSort_iff hnd fun x hx => scores_pos hx
      constructor
      · rintro ⟨s, h⟩
        simp only [affinity, Option.bind_eq_bind, Option.bind_some, Option.bind_eq_some_iff] at h
        obtain ⟨x, hx, m, hm, hnm⟩ := h
        obtain ⟨rfl, -⟩ := Prod.mk.inj (Option.some.inj hnm)
        have hdx := (hdec x).mp hx
        obtain ⟨p, hp, hpos, hbest⟩ := mem_scores.mp hdx.mem
        have hlast := (candByPK_spec hp).2
        rw [hm] at hlast
        refine ⟨p, hdx.outstanding hp hpos (congrArg Prod.fst hbest), ?_, hlast.symm⟩
        rw [hbest]
        exact hdx.count
      · rintro ⟨p, hout, hcount, hlast⟩
        obtain ⟨m, hm, rfl⟩ := hout.listed
        obtain ⟨i, hi⟩ := exists_candByPK hm
        have hdx := (hdec _).mpr (hout.decisive hi hcount)
        refine ⟨strength w (some g) (keyOf m) ctx, ?_⟩
        simp only [affinity, Option.bind_eq_bind, Option.bind_some, hdx, (candByPK_spec hi).2, hlast]

end

/-- The tier that decides when the first one does not: who is considered, and who is better than whom. -/
structure Pool where
  beats : Node → Node → Bool
  keeps : Node → Bool
  method : Method

def Pool.nodes (pool : Pool) (candidates : List Node) : List Node := candidates.filter pool.keeps

def poolOf (w : Figures) (pm : NodeMap) (candidates : List Node) (ctx : List String) : Pool :=
  if withGPS candidates = [] then ⟨betterByObsCount, fun _ => true, .observationCountFallback⟩
  else match contextCentre pm ctx with
    | some centre => ⟨nearer w centre, fun n => n.hasGPS, .geoProximity⟩
    | none => ⟨betterByObsCount, fun n => n.hasGPS, .gpsPreference⟩

theorem betterByObsCount_ranking : Ranking betterByObsCount where
  asymm := by
    intro a b h
    simp only [betterByObsCount] at *
    split at h
    · next hne =>
        rw [if_pos (Ne.symm hne)]
        exact decide_eq_false (lt_asymm (of_decide_eq_true h))
    · next heq =>
        rw [if_neg (fun h' => heq (Ne.symm h'))]
        exact decide_eq_false (lt_asymm (of_decide_eq_true h))
  trans := by
    intro a b c hab hbc
    simp only [betterByObsCount] at *
    have hcount : ∀ x y : Node, (if x.observationCount ≠ y.observationCount then
        decide (y.observationCount < x.observationCount) else decide (x.publicKey < y.publicKey)) = false ↔
        x.observationCount < y.observationCount ∨ (x.observationCount = y.observationCount ∧ y.publicKey ≤ x.publicKey) := by
      intro x y
      split
      · next hne =>
          rw [decide_eq_false_iff_not, not_lt]
          exact ⟨fun h => .inl (lt_of_le_of_ne h hne), fun h => h.elim le_of_lt fun h' => absurd h'.1 hne⟩
      · next heq =>
          rw [decide_eq_false_iff_not, not_lt]
          exact ⟨fun h => .inr ⟨not_not.mp heq, h⟩, fun h => h.elim (fun h' => absurd (not_not.mp heq) h'.ne) And.right⟩
    rw [hcount] at hab hbc ⊢
    rcases hab with hab | ⟨hab, hkey⟩ <;> rcases hbc with hbc | ⟨hbc, hkey'⟩
    · exact .inl (hab.trans hbc)
    · exact .inl (hbc ▸ hab)
    · exact .inl (hab ▸ hbc)
    · exact .inr ⟨hab.trans hbc, hkey'.trans hkey⟩

section

variable {w : Figures} {pm : NodeMap} {candidates : List Node} {ctx : List String}

theorem poolOf_ranking : Ranking (poolOf w pm candidates ctx).beats := by
  rw [poolOf]
  split
  · exact betterByObsCount_ranking
  · split
    · exact Ranking.of_key _
    · exact betterByObsCount_ranking

theorem lowerTiers_eq : lowerTiers w pm candidates ctx =
    ⟨pick (poolOf w pm candidates ctx).beats ((poolOf w pm candidates ctx).nodes candidates),
      (poolOf w pm candidates ctx).method, 0⟩ := by
  by_cases hgps : withGPS candidates = []
  · have hpool : poolOf w pm candidates ctx = ⟨betterByObsCount, fun _ => true, .observationCountFallback⟩ :=
      if_pos hgps
    have hgeo : geoProximity w pm candidates ctx = none := by
      rw [geoProximity]
      cases contextCentre pm ctx <;> simp [hgps, pick]
    simp [lowerTiers, hgeo, hgps, hpool, pick, Pool.nodes]
  · obtain ⟨n, hn⟩ : ∃ n, pick betterByObsCount (withGPS candidates) = some n :=
      Option.isSome_iff_exists.mp (isSome_pick.mpr hgps)
    cases hc : contextCentre pm ctx with
    | none =>
        have hgeo : geoProximity w pm candidates ctx = none := by simp [geoProximity, hc]
        have hpool : poolOf w pm candidates ctx = ⟨betterByObsCount, fun n => n.hasGPS, .gpsPreference⟩ := by
          simp [poolOf, hgps, hc]
        have hn' : pick betterByObsCount (candidates.filter fun n => n.hasGPS) = some n := hn
        simp [lowerTiers, hgeo, hn, hpool, Pool.nodes, hn']
    | some centre =>
        obtain ⟨m, hm⟩ : ∃ m, pick (nearer w centre) (withGPS candidates) = some m :=
          Option.isSome_iff_exists.mp (isSome_pick.mpr hgps)
        have hgeo : geoProximity w pm candidates ctx = some m := by simp [geoProximity, hc, hm]
        have hpool : poolOf w pm candidates ctx = ⟨nearer w centre, fun n => n.hasGPS, .geoProximity⟩ := by
          simp [poolOf, hgps, hc]
        have hm' : pick (nearer w centre) (candidates.filter fun n => n.hasGPS) = some m := hm
        simp [lowerTiers, hgeo, hpool, Pool.nodes, hm']

theorem poolOf_method_ne : (poolOf w pm candidates ctx).method ≠ .neighborAffinity := by
  rw [poolOf]
  split
  · simp
  · split <;> simp

end

theorem located_perm {pm pm' : NodeMap} (h : ∀ k, (bucket pm'.m k).Perm (bucket pm.m k)) (ctxPK : String) :
    located pm' ctxPK = located pm ctxPK := by
  have hk := h (toLower ctxPK)
  unfold located
  match hl : bucket pm.m (toLower ctxPK) with
  | [] => rw [hl] at hk; rw [List.perm_nil.mp hk]
  | [n] => rw [hl] at hk; rw [List.perm_singleton.mp hk]
  | a :: b :: l =>
      rw [hl] at hk
      match hl' : bucket pm'.m (toLower ctxPK) with
      | [] => rfl
      | [n] =>
          rw [hl'] at hk
          have := hk.length_eq
          simp at this
      | _ :: _ :: _ => rfl

theorem contextCentre_perm {pm pm' : NodeMap} (h : ∀ k, (bucket pm'.m k).Perm (bucket pm.m k)) {ctx ctx' : List String}
    (hx : ctx'.Perm ctx) : contextCentre pm' ctx' = contextCentre pm ctx := by
  have hp : (ctx'.filterMap (located pm')).Perm (ctx.filterMap (located pm)) := by
    rw [funext (located_perm h)]
    exact hx.filterMap _
  unfold contextCentre
  generalize ctx'.filterMap (located pm') = ns' at hp
  generalize ctx.filterMap (located pm) = ns at hp
  cases ns with
  | nil => rw [List.perm_nil.mp hp]
  | cons n ns =>
      cases ns' with
      | nil => exact absurd hp.length_eq (by simp)
      | cons n' ns' =>
          simp only
          rw [(hp.map fun n => n.lat).sum_eq, (hp.map fun n => n.lon).sum_eq, hp.length_eq]

def nodeMap (nonRelay : Finset String) (nodes : List Node) : NodeMap := ⟨buildPrefixMap nodes, nonRelay⟩

def shares (nonRelay : Finset String) (hop : String) (n : Node) : Nat :=
  if canAppearInPath n.role ∧ toLower n.publicKey ∉ nonRelay then
    (prefixKeys (toLower n.publicKey)).count (toLower hop) else 0

theorem bucket_buildPrefixMap (nodes : List Node) (k : String) :
    bucket (buildPrefixMap nodes) k = nodes.flatMap fun n =>
      if canAppearInPath n.role then List.replicate ((prefixKeys (toLower n.publicKey)).count k) n else [] := by
  induction nodes using List.reverseRecOn with
  | nil => rfl
  | append_singleton nodes n ih =>
      rw [buildPrefixMap, List.foldl_append, List.flatMap_append, ← ih]
      simp only [List.foldl_cons, List.foldl_nil, addNode]
      split
      · next h =>
          rw [bucket_pushAll]
          simp [buildPrefixMap, h]
      · next h => simp [buildPrefixMap, h]

section

variable {nonRelay : Finset String} {hop : String} {nodes : List Node} {n : Node}

theorem candidates_build : (nodeMap nonRelay nodes).candidates hop =
    nodes.flatMap fun n => List.replicate (shares nonRelay hop n) n := by
  change (bucket (buildPrefixMap nodes) (toLower hop)).filter (fun n => toLower n.publicKey ∉ nonRelay) = _
  rw [bucket_buildPrefixMap, List.filter_flatMap]
  congr 1
  funext n
  rw [shares]
  by_cases hrole : canAppearInPath n.role = true <;> by_cases hlisten : toLower n.publicKey ∈ nonRelay <;>
    simp [hrole, hlisten]

theorem shares_pos (h : n ∈ (nodeMap nonRelay nodes).candidates hop) :
    n ∈ nodes ∧ ∃ k, shares nonRelay hop n = k + 1 := by
  rw [candidates_build, List.mem_flatMap] at h
  obtain ⟨m, hm, hn⟩ := h
  obtain ⟨hne, rfl⟩ := List.mem_replicate.mp hn
  exact ⟨hm, Nat.exists_eq_succ_of_ne_zero hne⟩

theorem exists_first (h : n ∈ (nodeMap nonRelay nodes).candidates hop) {keeps : Node → Bool}
    (hn : keeps n = true) : ∃ nodes' : List Node, nodes'.Perm nodes ∧ ∃ rest,
      ((nodeMap nonRelay nodes').candidates hop).filter keeps = n :: rest := by
  obtain ⟨hmem, k, hk⟩ := shares_pos h
  refine ⟨n :: nodes.erase n, (List.perm_cons_erase hmem).symm, ?_⟩
  rw [candidates_build, List.flatMap_cons, hk, List.replicate_succ, List.cons_append, List.filter_cons, if_pos hn]
  exact ⟨_, rfl⟩

theorem exists_last (h : n ∈ (nodeMap nonRelay nodes).candidates hop) :
    ∃ nodes' : List Node, nodes'.Perm nodes ∧
      lastWith (keyOf n) ((nodeMap nonRelay nodes').candidates hop) = some n := by
  obtain ⟨hmem, k, hk⟩ := shares_pos h
  refine ⟨nodes.erase n ++ [n], List.perm_append_singleton _ _ |>.trans (List.perm_cons_erase hmem).symm, ?_⟩
  rw [candidates_build, List.flatMap_append, lastWith, List.filter_append]
  simp [hk, List.getLast?_append, List.getLast?_replicate]

end

theorem candidates_perm (nonRelay : Finset String) (hop : String) {nodes nodes' : List Node} (h : nodes'.Perm nodes) :
    ((nodeMap nonRelay nodes').candidates hop).Perm
      ((nodeMap nonRelay nodes).candidates hop) := by
  rw [candidates_build, candidates_build]
  exact h.flatMap_right _

theorem bucket_perm {nonRelay : Finset String} {nodes nodes' : List Node} (h : nodes'.Perm nodes) (k : String) :
    (bucket (nodeMap nonRelay nodes').m k).Perm (bucket (nodeMap nonRelay nodes).m k) := by
  change (bucket (buildPrefixMap nodes') k).Perm (bucket (buildPrefixMap nodes) k)
  rw [bucket_buildPrefixMap, bucket_buildPrefixMap]
  exact h.flatMap_right _

def OneBest (beats : Node → Node → Bool) (l : List Node) : Prop := ∀ a b, Best beats l a → Best beats l b → a = b

section

variable (w : Figures) (pm : NodeMap) (graph : Option NeighborGraph) (candidates : List Node) (ctx : List String)

/-- Whatever context node comes first, an outstanding candidate has been heard often enough; the key has one
candidate only. -/
structure Settled (p : String) : Prop where
  outstanding : Outstanding w graph candidates ctx p
  heard : ∀ c, Attains w graph p ctx c → NeighborGraph.affinityMinObservations ≤ heardOf w graph p c
  one : ∀ n ∈ candidates, ∀ m ∈ candidates, keyOf n = p → keyOf m = p → n = m

def Undecided : Prop :=
  ∀ p, Outstanding w graph candidates ctx p → ∀ c, Attains w graph p ctx c →
    heardOf w graph p c < NeighborGraph.affinityMinObservations

/-- The tier that decides has one best candidate, in any order. -/
def Decided : Prop :=
  candidates.length ≤ 1 ∨ (∃ p, Settled w graph candidates ctx p) ∨
    (Undecided w graph candidates ctx ∧
      OneBest (poolOf w pm candidates ctx).beats ((poolOf w pm candidates ctx).nodes candidates))

def outcome (hop : String) : Option Node × Method :=
  let r := pm.resolveWithContext w hop ctx graph
  (r.node, r.method)

end

section

variable {w : Figures} {pm : NodeMap} {graph : Option NeighborGraph} {hop : String} {ctx : List String} {n : Node}

theorem outcome_of_affinity (hlen : 2 ≤ (pm.candidates hop).length)
    (h : ∃ s, affinity w graph (pm.candidates hop) ctx = some (n, s)) :
    outcome w pm graph ctx hop = (some n, .neighborAffinity) := by
  obtain ⟨s, hs⟩ := h
  rw [outcome, NodeMap.resolveWithContext]
  split
  · next hnil => simp [hnil] at hlen
  · next m hone => simp [hone] at hlen
  · rw [hs]

theorem outcome_of_lower (hlen : 2 ≤ (pm.candidates hop).length)
    (h : ∀ n s, affinity w graph (pm.candidates hop) ctx ≠ some (n, s)) :
    outcome w pm graph ctx hop =
      (pick (poolOf w pm (pm.candidates hop) ctx).beats ((poolOf w pm (pm.candidates hop) ctx).nodes (pm.candidates hop)),
        (poolOf w pm (pm.candidates hop) ctx).method) := by
  have hnone : affinity w graph (pm.candidates hop) ctx = none := by
    cases ha : affinity w graph (pm.candidates hop) ctx with
    | none => rfl
    | some r => exact absurd ha (h r.1 r.2)
  rw [outcome, NodeMap.resolveWithContext]
  split
  · next hnil => simp [hnil] at hlen
  · next m hone => simp [hone] at hlen
  · rw [hnone]
    simp only
    rw [lowerTiers_eq]

theorem affinity_ne_some {candidates : List Node}
    (h : ∀ p, Outstanding w graph candidates ctx p → ∀ c, Attains w graph p ctx c →
      heardOf w graph p c < NeighborGraph.affinityMinObservations) (n : Node) (s : ℚ) :
    affinity w graph candidates ctx ≠ some (n, s) := by
  intro hs
  obtain ⟨p, hout, hcount, -⟩ := affinity_iff.mp ⟨s, hs⟩
  obtain ⟨c, hc, hheard⟩ := exists_attains w graph p hout.positive
  rw [hheard] at hcount
  exact absurd (h p hout c hc) (not_lt.mpr hcount)

theorem Attains.perm {p c : String} {ctx ctx' : List String} (h : Attains w graph p ctx' c) (hx : ctx'.Perm ctx) :
    Attains w graph p ctx c := ⟨hx.mem_iff.mp h.1, h.2.trans (strength_perm w graph p hx)⟩

end

section

variable {w : Figures} {nonRelay : Finset String} {graph : Option NeighborGraph} {hop : String} {nodes nodes' : List Node}
  {ctx ctx' : List String} {p : String}

theorem poolOf_perm (hn : nodes'.Perm nodes) (hx : ctx'.Perm ctx) :
    poolOf w (nodeMap nonRelay nodes') ((nodeMap nonRelay nodes').candidates hop) ctx' =
      poolOf w (nodeMap nonRelay nodes) ((nodeMap nonRelay nodes).candidates hop) ctx := by
  have hgps : (withGPS ((nodeMap nonRelay nodes').candidates hop)).Perm
      (withGPS ((nodeMap nonRelay nodes).candidates hop)) := (candidates_perm nonRelay hop hn).filter _
  have hnil : withGPS ((nodeMap nonRelay nodes').candidates hop) = [] ↔
      withGPS ((nodeMap nonRelay nodes).candidates hop) = [] := by
    rw [← List.length_eq_zero_iff, hgps.length_eq, List.length_eq_zero_iff]
  unfold poolOf
  rw [contextCentre_perm (bucket_perm hn) hx]
  simp only [hnil]

theorem outcome_eq_of_settled (h : Settled w graph ((nodeMap nonRelay nodes).candidates hop) ctx p)
    (hlen : 2 ≤ ((nodeMap nonRelay nodes).candidates hop).length) :
    ∃ n, ∀ nodes' ctx', nodes'.Perm nodes → ctx'.Perm ctx →
      outcome w (nodeMap nonRelay nodes') graph ctx' hop = (some n, .neighborAffinity) := by
  obtain ⟨n, hn, rfl⟩ := h.outstanding.listed
  refine ⟨n, fun nodes' ctx' hnodes hx => ?_⟩
  have hcand : ((nodeMap nonRelay nodes').candidates hop).Perm ((nodeMap nonRelay nodes).candidates hop) :=
    candidates_perm nonRelay hop hnodes
  have hout := h.outstanding.perm hcand hx
  obtain ⟨c, hc, hcount⟩ := exists_attains w graph _ hout.positive
  obtain ⟨m, hm⟩ := exists_lastWith (hcand.mem_iff.mpr hn)
  obtain ⟨hmem, hkey⟩ := key_of_lastWith hm
  obtain rfl := h.one m (hcand.mem_iff.mp hmem) n hn hkey rfl
  apply outcome_of_affinity (hcand.length_eq ▸ hlen)
  exact affinity_iff.mpr ⟨_, hout, hcount ▸ h.heard c (hc.perm hx), hm⟩

theorem undecided_perm (h : Undecided w graph ((nodeMap nonRelay nodes).candidates hop) ctx)
    (hn : nodes'.Perm nodes) (hx : ctx'.Perm ctx) :
    Undecided w graph ((nodeMap nonRelay nodes').candidates hop) ctx' := by
  intro p hout c hc
  exact h p (hout.perm (candidates_perm nonRelay hop hn).symm hx.symm) c (hc.perm hx)

theorem outcome_of_undecided (h : Undecided w graph ((nodeMap nonRelay nodes).candidates hop) ctx)
    (hlen : 2 ≤ ((nodeMap nonRelay nodes).candidates hop).length) (hn : nodes'.Perm nodes) (hx : ctx'.Perm ctx) :
    outcome w (nodeMap nonRelay nodes') graph ctx' hop =
      (pick (poolOf w (nodeMap nonRelay nodes) ((nodeMap nonRelay nodes).candidates hop) ctx).beats
        ((poolOf w (nodeMap nonRelay nodes) ((nodeMap nonRelay nodes).candidates hop) ctx).nodes
          ((nodeMap nonRelay nodes').candidates hop)),
        (poolOf w (nodeMap nonRelay nodes) ((nodeMap nonRelay nodes).candidates hop) ctx).method) := by
  have hlen' : 2 ≤ ((nodeMap nonRelay nodes').candidates hop).length := by
    rw [(candidates_perm nonRelay hop hn).length_eq]
    exact hlen
  rw [outcome_of_lower hlen' (affinity_ne_some (undecided_perm h hn hx)), poolOf_perm hn hx]

theorem settled_or_undecided
    (h : ∀ ctx', ctx'.Perm ctx → outcome w (nodeMap nonRelay nodes) graph ctx' hop =
      outcome w (nodeMap nonRelay nodes) graph ctx hop)
    (hlen : 2 ≤ ((nodeMap nonRelay nodes).candidates hop).length)
    (hp : Outstanding w graph ((nodeMap nonRelay nodes).candidates hop) ctx p) :
    (∀ c, Attains w graph p ctx c → NeighborGraph.affinityMinObservations ≤ heardOf w graph p c) ∨
      Undecided w graph ((nodeMap nonRelay nodes).candidates hop) ctx := by
  by_cases hall : ∀ c, Attains w graph p ctx c → NeighborGraph.affinityMinObservations ≤ heardOf w graph p c
  · exact .inl hall
  · right
    simp only [not_forall, not_le] at hall
    obtain ⟨c, hc, hseldom⟩ := hall
    intro q hq d hd
    obtain rfl := hp.unique hq
    by_contra hoften
    rw [not_lt] at hoften
    -- with the one context node first nobody is taken, with the other one first the candidate is
    have hfirst : ∀ e, Attains w graph p ctx e →
        (bestLink (linksTo w graph p (e :: ctx.erase e))).2 = heardOf w graph p e := fun e he =>
      bestLink_of_attains w graph p (he.perm (List.perm_cons_erase he.1))
    have hperm : ∀ e, Attains w graph p ctx e → (e :: ctx.erase e).Perm ctx := fun e he =>
      (List.perm_cons_erase he.1).symm
    obtain ⟨n, hn, hkey⟩ := hp.listed
    obtain ⟨m, hm⟩ := exists_lastWith hn
    have htaken : outcome w (nodeMap nonRelay nodes) graph (d :: ctx.erase d) hop = (some m, .neighborAffinity) :=
      outcome_of_affinity hlen (affinity_iff.mpr ⟨p, hp.perm (List.Perm.refl _) (hperm d hd),
        (hfirst d hd).symm ▸ hoften, hkey ▸ hm⟩)
    have hnobody : ∀ n s,
        affinity w graph ((nodeMap nonRelay nodes).candidates hop) (c :: ctx.erase c) ≠ some (n, s) := by
      intro n s hs
      obtain ⟨q, hout, hcount, -⟩ := affinity_iff.mp ⟨s, hs⟩
      obtain rfl := hp.unique (hout.perm (List.Perm.refl _) (hperm c hc).symm)
      rw [hfirst c hc] at hcount
      exact absurd hseldom (not_lt.mpr hcount)
    have hleft := outcome_of_lower hlen hnobody
    have hsame := (h _ (hperm d hd)).trans (h _ (hperm c hc)).symm
    rw [htaken, hleft] at hsame
    exact poolOf_method_ne (Prod.mk.inj hsame).2.symm

theorem orderIndependent_iff (w : Figures) (nonRelay : Finset String) (graph : Option NeighborGraph) (hop : String)
    (nodes : List Node) (ctx : List String) :
    (∀ nodes' ctx', nodes'.Perm nodes → ctx'.Perm ctx →
      outcome w (nodeMap nonRelay nodes') graph ctx' hop = outcome w (nodeMap nonRelay nodes) graph ctx hop) ↔
    Decided w (nodeMap nonRelay nodes) graph ((nodeMap nonRelay nodes).candidates hop) ctx := by
  by_cases hlen : ((nodeMap nonRelay nodes).candidates hop).length ≤ 1
  · refine ⟨fun _ => .inl hlen, fun _ nodes' ctx' hn hx => ?_⟩
    have hcand : ((nodeMap nonRelay nodes').candidates hop).Perm ((nodeMap nonRelay nodes).candidates hop) :=
      candidates_perm nonRelay hop hn
    have heq : (nodeMap nonRelay nodes').candidates hop = (nodeMap nonRelay nodes).candidates hop := by
      match hc : (nodeMap nonRelay nodes).candidates hop with
      | [] => rw [hc] at hcand; exact List.perm_nil.mp hcand
      | [n] => rw [hc] at hcand; exact List.perm_singleton.mp hcand
      | _ :: _ :: _ => simp [hc] at hlen
    unfold outcome NodeMap.resolveWithContext
    rw [heq]
    match hc : (nodeMap nonRelay nodes).candidates hop with
    | [] => rfl
    | [n] => rfl
    | _ :: _ :: _ => simp [hc] at hlen
  · have htwo : 2 ≤ ((nodeMap nonRelay nodes).candidates hop).length := by omega
    constructor
    · intro h
      have hundecided : Undecided w graph ((nodeMap nonRelay nodes).candidates hop) ctx →
          OneBest (poolOf w (nodeMap nonRelay nodes) ((nodeMap nonRelay nodes).candidates hop) ctx).beats
            ((poolOf w (nodeMap nonRelay nodes) ((nodeMap nonRelay nodes).candidates hop) ctx).nodes
              ((nodeMap nonRelay nodes).candidates hop)) := by
        intro hu
        -- each of the best may come first, and is then the outcome
        have hfirst : ∀ a, Best (poolOf w (nodeMap nonRelay nodes) ((nodeMap nonRelay nodes).candidates hop) ctx).beats
            ((poolOf w (nodeMap nonRelay nodes) ((nodeMap nonRelay nodes).candidates hop) ctx).nodes
              ((nodeMap nonRelay nodes).candidates hop)) a →
            (outcome w (nodeMap nonRelay nodes) graph ctx hop).1 = some a := by
          intro a ha
          obtain ⟨hmem, hkeeps⟩ := List.mem_filter.mp ha.mem
          obtain ⟨nodes', hperm, rest, hrest⟩ := exists_first hmem hkeeps
          rw [← h nodes' ctx hperm (List.Perm.refl _), outcome_of_undecided hu htwo hperm (List.Perm.refl _)]
          have hsame : ∀ b, b ∈ a :: rest ↔ b ∈ (poolOf w (nodeMap nonRelay nodes)
              ((nodeMap nonRelay nodes).candidates hop) ctx).nodes ((nodeMap nonRelay nodes).candidates hop) := by
            intro b
            rw [← hrest]
            exact ((candidates_perm nonRelay hop hperm).filter _).mem_iff
          change pick _ (((nodeMap nonRelay nodes').candidates hop).filter _) = some a
          rw [hrest]
          exact pick_cons_of_best (ha.congr hsame)
        intro a b ha hb
        exact Option.some.inj ((hfirst a ha).symm.trans (hfirst b hb))
      right
      by_cases hex : ∃ p, Outstanding w graph ((nodeMap nonRelay nodes).candidates hop) ctx p
      · obtain ⟨p, hp⟩ := hex
        rcases settled_or_undecided (fun ctx' hx => h nodes ctx' (List.Perm.refl _) hx) htwo hp with hheard | hu
        · refine .inl ⟨p, hp, hheard, ?_⟩
          have hlast : ∀ n ∈ (nodeMap nonRelay nodes).candidates hop, keyOf n = p →
              outcome w (nodeMap nonRelay nodes) graph ctx hop = (some n, .neighborAffinity) := by
            intro n hn hkey
            obtain ⟨nodes', hperm, hlast⟩ := exists_last hn
            have hcand : ((nodeMap nonRelay nodes').candidates hop).Perm ((nodeMap nonRelay nodes).candidates hop) :=
              candidates_perm nonRelay hop hperm
            obtain ⟨c, hc, hcount⟩ := exists_attains w graph p hp.positive
            rw [← h nodes' ctx hperm (List.Perm.refl _)]
            apply outcome_of_affinity (hcand.length_eq ▸ htwo)
            exact affinity_iff.mpr ⟨p, hp.perm hcand (List.Perm.refl _), hcount ▸ hheard c hc, hkey ▸ hlast⟩
          intro n hn m hm hkn hkm
          exact Option.some.inj (Prod.mk.inj ((hlast n hn hkn).symm.trans (hlast m hm hkm))).1
        · exact .inr ⟨hu, hundecided hu⟩
      · have hu : Undecided w graph ((nodeMap nonRelay nodes).candidates hop) ctx :=
          fun p hp => absurd ⟨p, hp⟩ hex
        exact .inr ⟨hu, hundecided hu⟩
    · rintro (h | ⟨p, hp⟩ | ⟨hu, hone⟩) nodes' ctx' hn hx
      · exact absurd h hlen
      · obtain ⟨n, hsame⟩ := outcome_eq_of_settled hp htwo
        rw [hsame nodes' ctx' hn hx, hsame nodes ctx (List.Perm.refl _) (List.Perm.refl _)]
      · rw [outcome_of_undecided hu htwo hn hx,
          outcome_of_undecided hu htwo (List.Perm.refl _) (List.Perm.refl _)]
        congr 1
        exact pick_eq_of_unique poolOf_ranking
          (fun c => ((candidates_perm nonRelay hop hn).filter _).mem_iff) hone

end

def flatEarth : Figures := ⟨fun _ => 0, fun lat1 lon1 lat2 lon2 => (lat2 - lat1) ^ 2 + (lon2 - lon1) ^ 2⟩

theorem outcome_of_twoCandidates {w : Figures} {pm : NodeMap} {hop ctxPK : String} {a b c : Node}
    (hcand : pm.candidates hop = [a, b]) (hctx : bucket pm.m (toLower ctxPK) = [c]) (ha : a.hasGPS = true)
    (hb : b.hasGPS = true) (hc : c.hasGPS = true) :
    outcome w pm none [ctxPK] hop =
      (some (if nearer w (c.lat, c.lon) b a then b else a), .geoProximity) := by
  have hcentre : contextCentre pm [ctxPK] = some (c.lat, c.lon) := by
    simp [contextCentre, located, hctx, hc]
  have hgps : withGPS [a, b] = [a, b] := by simp [withGPS, ha, hb]
  simp [outcome, NodeMap.resolveWithContext, hcand, affinity, lowerTiers, geoProximity, hcentre, hgps, pick, better]

def mast : Node := { repeater "cc33" 0 with lat := 51 }

theorem equidistant_by_order :
    ¬ ∀ (w : Figures) (nonRelay : Finset String) (graph : Option NeighborGraph) (hop : String)
        (nodes nodes' : List Node) (ctx ctx' : List String), nodes'.Perm nodes → ctx'.Perm ctx →
        outcome w (nodeMap nonRelay nodes') graph ctx' hop = outcome w (nodeMap nonRelay nodes) graph ctx hop := by
  intro h
  have hctx : ∀ nodes ∈ [[repeater "aa11" 0, repeater "aa22" 7, mast], [repeater "aa22" 7, repeater "aa11" 0, mast]],
      bucket (nodeMap ∅ nodes).m (toLower "cc33") = [mast] := by
    intro nodes
    change _ → bucket (buildPrefixMap nodes) _ = _
    rw [bucket_buildPrefixMap]
    revert nodes
    decide +kernel
  have hfirst : (nodeMap ∅ [repeater "aa11" 0, repeater "aa22" 7, mast]).candidates "aa" =
      [repeater "aa11" 0, repeater "aa22" 7] := by
    rw [candidates_build]
    decide +kernel
  have hswapped : (nodeMap ∅ [repeater "aa22" 7, repeater "aa11" 0, mast]).candidates "aa" =
      [repeater "aa22" 7, repeater "aa11" 0] := by
    rw [candidates_build]
    decide +kernel
  have hsame := h flatEarth ∅ none "aa" [repeater "aa11" 0, repeater "aa22" 7, mast]
    [repeater "aa22" 7, repeater "aa11" 0, mast] ["cc33"] ["cc33"] (List.Perm.swap _ _ _) (List.Perm.refl _)
  rw [outcome_of_twoCandidates hfirst (hctx _ (by simp)) rfl rfl rfl,
    outcome_of_twoCandidates hswapped (hctx _ (by simp)) rfl rfl rfl] at hsame
  revert hsame
  decide +kernel

end MeshcoreAnalyzer.HopTiers
