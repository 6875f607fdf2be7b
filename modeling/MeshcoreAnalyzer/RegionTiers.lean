import MeshcoreAnalyzer.RegionKeys

namespace MeshcoreAnalyzer.RegionKeys

open GoBytes Spaces MeshcoreAnalyzer.Frame

variable {sha256 : Bytes → Bytes} {cfg : Config}

def Configured (cfg : Config) (name : Bytes) : Prop :=
  ∃ raw ∈ cfg.hashRegions, trimSpace raw ≠ [] ∧ withHash (trimSpace raw) = name

def Declared (names : List Bytes) (name : Bytes) : Prop :=
  ∃ raw ∈ names, ∃ canonical, regionNameAcceptable raw = some canonical ∧ 0x23 :: canonical = name

structure Keyed (sha256 : Bytes → Bytes) (l : List (Bytes × Bytes)) : Prop where
  nodup : (l.map Prod.fst).Nodup
  key : ∀ e ∈ l, hasPrefix 0x23 e.1 = true ∧ e.2 = regionKey sha256 e.1

/-- The snapshot after refreshes of which the last brought the names `last`. -/
structure Tiers (sha256 : Bytes → Bytes) (cfg : Config) (last : List Bytes) (s : RegionKeySnapshot) : Prop where
  explicit : ∀ name, name ∈ s.explicit ↔ Configured cfg name
  contains : ∀ name, Configured cfg name → (name, regionKey sha256 name) ∈ s.all
  derived : ∀ name, (name ∈ s.all.map Prod.fst ∧ name ∉ s.explicit) ↔ Declared last name ∧ ¬ Configured cfg name
  keyed : Keyed sha256 s.all

def Only {α : Type} (l : List α) (x : α) : Prop := x ∈ l ∧ ∀ y ∈ l, y = x

theorem Keyed.snoc {l : List (Bytes × Bytes)} (h : Keyed sha256 l) {name : Bytes} (hname : name ∉ l.map Prod.fst)
    (hhash : hasPrefix 0x23 name = true) : Keyed sha256 (l ++ [(name, regionKey sha256 name)]) where
  nodup := by
    rw [List.map_append]
    exact h.nodup.append (List.nodup_singleton name) (List.disjoint_singleton.mpr hname)
  key e he := by
    rcases List.mem_append.mp he with he | he
    · exact h.key e he
    · rw [List.mem_singleton.mp he]
      exact ⟨hhash, rfl⟩

theorem Keyed.mem {l : List (Bytes × Bytes)} (h : Keyed sha256 l) {name : Bytes} (hname : name ∈ l.map Prod.fst) :
    (name, regionKey sha256 name) ∈ l := by
  obtain ⟨e, he, rfl⟩ := List.mem_map.mp hname
  rw [← (h.key e he).2]
  exact he

theorem Keyed.lookup {l : List (Bytes × Bytes)} (h : Keyed sha256 l) {name : Bytes} (hname : name ∈ l.map Prod.fst) :
    lookupKey l name = regionKey sha256 name := by
  induction l with
  | nil => exact absurd hname List.not_mem_nil
  | cons e l ih =>
      have htail : Keyed sha256 l :=
        ⟨(List.nodup_cons.mp h.nodup).2, fun e he => h.key e (List.mem_cons_of_mem _ he)⟩
      rw [lookupKey, List.lookup_cons]
      cases heq : name == e.1 with
      | true =>
          rw [eq_of_beq heq, ← (h.key e List.mem_cons_self).2]
          rfl
      | false =>
          rw [List.map_cons, List.mem_cons] at hname
          exact ih htail (hname.resolve_left (ne_of_beq_false heq))

theorem hasPrefix_withHash (name : Bytes) : hasPrefix 0x23 (withHash name) = true := by
  rw [withHash]
  split
  · assumption
  · rfl

theorem Keyed.insert {l : List (Bytes × Bytes)} (h : Keyed sha256 l) {name : Bytes}
    (hhash : hasPrefix 0x23 name = true) :
    Keyed sha256 (if name ∈ l.map Prod.fst then l else l ++ [(name, regionKey sha256 name)]) ∧
      ∀ n, n ∈ (if name ∈ l.map Prod.fst then l else l ++ [(name, regionKey sha256 name)]).map Prod.fst ↔
        n ∈ l.map Prod.fst ∨ name = n := by
  split
  · next hmem =>
    refine ⟨h, fun n => ⟨.inl, ?_⟩⟩
    rintro (hn | rfl)
    · exact hn
    · exact hmem
  · next hmem =>
    refine ⟨h.snoc hmem hhash, fun n => ?_⟩
    rw [List.map_append, List.mem_append, List.map_singleton, List.mem_singleton, eq_comm (a := n)]

theorem loadRegionKeys_spec (sha256 : Bytes → Bytes) (cfg : Config) : Keyed sha256 (loadRegionKeys sha256 cfg) ∧
    ∀ name, name ∈ (loadRegionKeys sha256 cfg).map Prod.fst ↔ Configured cfg name := by
  simp only [loadRegionKeys, Configured]
  induction cfg.hashRegions using List.reverseRecOn with
  | nil => exact ⟨⟨List.nodup_nil, fun e he => absurd he List.not_mem_nil⟩, fun name => by simp⟩
  | append_singleton regions raw ih =>
      rw [List.foldl_concat]
      generalize regions.foldl _ _ = keys at ih ⊢
      obtain ⟨hkeyed, hmem⟩ := ih
      simp only [List.mem_append, List.mem_singleton, or_and_right, exists_or, exists_eq_left]
      by_cases hblank : trimSpace raw = []
      · rw [if_pos hblank]
        refine ⟨hkeyed, fun name => ?_⟩
        rw [hmem, iff_self_or]
        exact fun h => absurd hblank h.1
      · rw [if_neg hblank]
        obtain ⟨hkeyed', hmem'⟩ := hkeyed.insert (hasPrefix_withHash (trimSpace raw))
        refine ⟨hkeyed', fun name => ?_⟩
        rw [hmem', hmem]
        exact or_congr_right ⟨fun h => ⟨hblank, h⟩, And.right⟩

theorem addDerived_spec (explicit : List Bytes) {acc : List (Bytes × Bytes) × List Bytes} (h : Keyed sha256 acc.1)
    (raw : Bytes) : Keyed sha256 (addDerived sha256 explicit acc raw).1 ∧
      ∀ name, name ∈ (addDerived sha256 explicit acc raw).1.map Prod.fst ↔
        name ∈ acc.1.map Prod.fst ∨ (Declared [raw] name ∧ name ∉ explicit) := by
  have hdeclared : ∀ name, Declared [raw] name ↔
      ∃ canonical, regionNameAcceptable raw = some canonical ∧ 0x23 :: canonical = name := by
    intro name
    rw [Declared]
    simp only [List.mem_singleton, exists_eq_left]
  rw [addDerived]
  cases haccept : regionNameAcceptable raw with
  | none =>
      refine ⟨h, fun name => ?_⟩
      rw [hdeclared, haccept]
      simp
  | some canonical =>
      simp only [hdeclared, haccept, Option.some.injEq, exists_eq_left']
      by_cases hexplicit : 0x23 :: canonical ∈ explicit
      · rw [if_pos hexplicit]
        refine ⟨h, fun name => ?_⟩
        rw [iff_self_or]
        rintro ⟨rfl, hnot⟩
        exact absurd hexplicit hnot
      · rw [if_neg hexplicit]
        obtain ⟨hkeyed, hmem⟩ := h.insert (show hasPrefix 0x23 (0x23 :: canonical) = true from rfl)
        have hfst : (if 0x23 :: canonical ∈ acc.1.map Prod.fst then acc
            else (acc.1 ++ [(0x23 :: canonical, regionKey sha256 (0x23 :: canonical))], acc.2 ++ [0x23 :: canonical])).1 =
            if 0x23 :: canonical ∈ acc.1.map Prod.fst then acc.1
            else acc.1 ++ [(0x23 :: canonical, regionKey sha256 (0x23 :: canonical))] := apply_ite _ _ _ _
        rw [hfst]
        refine ⟨hkeyed, fun name => ?_⟩
        rw [hmem]
        apply or_congr_right
        constructor
        · rintro rfl
          exact ⟨rfl, hexplicit⟩
        · exact And.left

theorem foldl_addDerived (explicit : List Bytes) (acc : List (Bytes × Bytes) × List Bytes) (h : Keyed sha256 acc.1)
    (names : List Bytes) : Keyed sha256 (names.foldl (addDerived sha256 explicit) acc).1 ∧
      ∀ name, name ∈ (names.foldl (addDerived sha256 explicit) acc).1.map Prod.fst ↔
        name ∈ acc.1.map Prod.fst ∨ (Declared names name ∧ name ∉ explicit) := by
  induction names using List.reverseRecOn with
  | nil => exact ⟨h, fun name => by simp [Declared]⟩
  | append_singleton names raw ih =>
      rw [List.foldl_concat]
      obtain ⟨hkeyed, hmem⟩ := addDerived_spec explicit ih.1 raw
      refine ⟨hkeyed, fun name => ?_⟩
      have hdeclared : Declared (names ++ [raw]) name ↔ Declared names name ∨ Declared [raw] name := by
        simp only [Declared, List.mem_append, or_and_right, exists_or]
      rw [hmem, ih.2, hdeclared, or_and_right, or_assoc]

theorem tiers_new (sha256 : Bytes → Bytes) (cfg : Config) : Tiers sha256 cfg [] (newRegionKeySet sha256 cfg).cur := by
  obtain ⟨hkeyed, hmem⟩ := loadRegionKeys_spec sha256 cfg
  refine ⟨hmem, fun name hname => hkeyed.mem ((hmem name).mpr hname), fun name => ?_, hkeyed⟩
  constructor
  · rintro ⟨hall, hexplicit⟩
    exact absurd hall hexplicit
  · rintro ⟨⟨raw, hraw, -⟩, -⟩
    exact absurd hraw List.not_mem_nil

theorem Tiers.refresh {last names : List Bytes} {s : RegionKeySet} (h : Tiers sha256 cfg last s.cur)
    (hnodup : s.cur.explicit.Nodup) (henabled : s.enabled = true) :
    Tiers sha256 cfg names (s.refreshDerived sha256 names).1.cur := by
  have hexplicit : (s.cur.explicit.map fun name => (name, lookupKey s.cur.all name)).map Prod.fst = s.cur.explicit := by
    rw [List.map_map]
    exact List.map_id _
  have hbase : Keyed sha256 (s.cur.explicit.map fun name => (name, lookupKey s.cur.all name)) := by
    refine ⟨hexplicit.symm ▸ hnodup, fun e he => ?_⟩
    obtain ⟨name, hname, rfl⟩ := List.mem_map.mp he
    have hmem := h.contains name ((h.explicit name).mp hname)
    exact ⟨(h.keyed.key _ hmem).1, h.keyed.lookup (List.mem_map_of_mem hmem)⟩
  obtain ⟨hkeyed, hmem⟩ := foldl_addDerived s.cur.explicit (_, []) hbase names
  rw [RegionKeySet.refreshDerived, henabled]
  simp only [hexplicit] at hmem
  refine ⟨h.explicit, fun name hname => hkeyed.mem ((hmem name).mpr (.inl ((h.explicit name).mpr hname))),
    fun name => ?_, hkeyed⟩
  rw [← h.explicit name]
  constructor
  · rintro ⟨hall, hnot⟩
    exact ⟨(((hmem name).mp hall).resolve_left hnot).1, hnot⟩
  · rintro ⟨hdeclared, hnot⟩
    exact ⟨(hmem name).mpr (.inr ⟨hdeclared, hnot⟩), hnot⟩

theorem refreshDerived_disabled (sha256 : Bytes → Bytes) {s : RegionKeySet} (h : s.enabled = false) (names : List Bytes) :
    (s.refreshDerived sha256 names).1 = s := by
  rw [RegionKeySet.refreshDerived, h]
  rfl

theorem refreshDerived_same (sha256 : Bytes → Bytes) (s : RegionKeySet) (names : List Bytes) :
    (s.refreshDerived sha256 names).1.enabled = s.enabled ∧
      (s.refreshDerived sha256 names).1.cur.explicit = s.cur.explicit := by
  rw [RegionKeySet.refreshDerived]
  split <;> exact ⟨rfl, rfl⟩

def lastNames (cfg : Config) (refreshes : List (List Bytes)) : List Bytes :=
  if cfg.autoRegionKeysEnabled then refreshes.getLast?.getD [] else []

theorem tiers_refreshed (sha256 : Bytes → Bytes) (cfg : Config) (refreshes : List (List Bytes)) :
    Tiers sha256 cfg (lastNames cfg refreshes) (refreshed sha256 cfg refreshes).cur ∧
      (refreshed sha256 cfg refreshes).enabled = cfg.autoRegionKeysEnabled ∧
      (refreshed sha256 cfg refreshes).cur.explicit.Nodup := by
  induction refreshes using List.reverseRecOn with
  | nil =>
      have hlast : lastNames cfg [] = [] := ite_self _
      rw [hlast]
      exact ⟨tiers_new sha256 cfg, rfl, (loadRegionKeys_spec sha256 cfg).1.nodup⟩
  | append_singleton refreshes names ih =>
      obtain ⟨htiers, henabled, hnodup⟩ := ih
      rw [refreshed, List.foldl_concat]
      obtain ⟨hsame, hexplicit⟩ := refreshDerived_same sha256 (refreshed sha256 cfg refreshes) names
      refine ⟨?_, hsame.trans henabled, hexplicit.symm ▸ hnodup⟩
      cases hcfg : cfg.autoRegionKeysEnabled with
      | true =>
          have hlast : lastNames cfg (refreshes ++ [names]) = names := by simp [lastNames, hcfg]
          rw [hlast]
          exact htiers.refresh hnodup (henabled.trans hcfg)
      | false =>
          have hlast : lastNames cfg (refreshes ++ [names]) = lastNames cfg refreshes := by simp [lastNames, hcfg]
          have hstill := refreshDerived_disabled sha256 (henabled.trans hcfg) names
          rw [hlast]
          exact hstill.symm ▸ htiers

theorem eq_singleton_iff {l : List Bytes} (h : l.Nodup) (x : Bytes) : l = [x] ↔ Only l x := by
  constructor
  · rintro rfl
    exact ⟨List.mem_singleton_self x, fun y hy => List.mem_singleton.mp hy⟩
  · rintro ⟨hx, hall⟩
    by_contra hne
    rcases (h.ne_singleton_iff x).mp hne with rfl | ⟨y, hy, hyx⟩
    · exact List.not_mem_nil hx
    · exact hyx (hall y hy)

theorem decideMatch_name {explicit matched : List Bytes} (h : matched.Nodup) {r : Bytes} (hr : r ≠ []) :
    (decideMatch explicit matched).name = r ↔ Only matched r ∨ Only (matched.filter (· ∈ explicit)) r := by
  have hfilter := h.filter (· ∈ explicit)
  rw [← eq_singleton_iff h, ← eq_singleton_iff hfilter, decideMatch.eq_def]
  split
  · exact ⟨fun h => absurd h.symm hr, fun h => by rcases h with h | h <;> cases h⟩
  · next name =>
    rw [List.cons.injEq, and_iff_left rfl]
    refine ⟨.inl, ?_⟩
    rintro (hone | hone)
    · exact hone
    · have hmem : r ∈ [name].filter (· ∈ explicit) := hone ▸ List.mem_singleton_self r
      exact (List.mem_singleton.mp (List.mem_of_mem_filter hmem)).symm
  · next hnil hone =>
    have hnot : matched ≠ [r] := hone r
    split
    · next name hname =>
      rw [hname, List.cons.injEq, and_iff_left rfl]
      exact ⟨.inr, fun h => h.resolve_left hnot⟩
    · next hmany => exact ⟨fun h => absurd h.symm hr, fun h => absurd (h.resolve_left hnot) (hmany r)⟩

variable {crypto : Crypto} {payloadType : UInt8} {payloadRaw code1 : Bytes}

def Matching (crypto : Crypto) (all : List (Bytes × Bytes)) (payloadType : UInt8) (payloadRaw code1 name : Bytes) : Prop :=
  code1 ≠ noCode ∧ payloadRaw ≠ [] ∧
    ∃ key, (name, key) ∈ all ∧ codeOf (crypto.hmacSHA256 key (payloadType :: payloadRaw)) = code1

theorem mem_matchingRegions {all : List (Bytes × Bytes)} {name : Bytes} :
    name ∈ matchingRegions crypto all payloadType payloadRaw code1 ↔
      Matching crypto all payloadType payloadRaw code1 name := by
  rw [matchingRegions, Matching]
  split
  · next h =>
    refine iff_of_false List.not_mem_nil ?_
    rintro ⟨hcode, hraw, key, hmem, -⟩
    rcases h with h | h | h
    · exact hcode h
    · rw [List.length_eq_zero_iff.mp h] at hmem
      exact List.not_mem_nil hmem
    · exact hraw (List.length_eq_zero_iff.mp h)
  · next h =>
    rw [not_or, not_or] at h
    simp only [List.mem_map, List.mem_filter, beq_iff_eq, Prod.exists, exists_and_right, exists_eq_right]
    exact ⟨fun hkey => ⟨h.1, fun hnil => h.2.2 (List.length_eq_zero_iff.mpr hnil), hkey⟩, fun hall => hall.2.2⟩

theorem nodup_matchingRegions {all : List (Bytes × Bytes)} (h : (all.map Prod.fst).Nodup) :
    (matchingRegions crypto all payloadType payloadRaw code1).Nodup := by
  rw [matchingRegions]
  split
  · exact List.nodup_nil
  · exact h.sublist (List.filter_sublist.map Prod.fst)

/-- A region that matches and has none beside it, in its tier or at all. -/
def Named (crypto : Crypto) (s : RegionKeySnapshot) (payloadType : UInt8) (payloadRaw code1 r : Bytes) : Prop :=
  Matching crypto s.all payloadType payloadRaw code1 r ∧
    ((∀ r', Matching crypto s.all payloadType payloadRaw code1 r' → r' = r) ∨
      (r ∈ s.explicit ∧ ∀ r', Matching crypto s.all payloadType payloadRaw code1 r' → r' ∈ s.explicit → r' = r))

theorem scopeMatch_name {s : RegionKeySnapshot} (h : Keyed sha256 s.all) {order : List (Bytes × Bytes)}
    (horder : order.Perm s.all) {r : Bytes} (hr : r ≠ []) :
    (s.scopeMatch crypto order payloadType payloadRaw code1).name = r ↔
      Named crypto s payloadType payloadRaw code1 r := by
  have hmem : ∀ name, name ∈ matchingRegions crypto order payloadType payloadRaw code1 ↔
      Matching crypto s.all payloadType payloadRaw code1 name := by
    intro name
    rw [mem_matchingRegions, Matching, Matching]
    simp only [horder.mem_iff]
  have hnodup : (order.map Prod.fst).Nodup := (horder.map Prod.fst).nodup_iff.mpr h.nodup
  rw [RegionKeySnapshot.scopeMatch, decideMatch_name (nodup_matchingRegions hnodup) hr]
  simp only [Only, Named, List.mem_filter, decide_eq_true_eq, hmem, and_imp]
  tauto

theorem scopeMatch_abstains {s : RegionKeySnapshot} (h : Keyed sha256 s.all) {order : List (Bytes × Bytes)}
    (horder : order.Perm s.all) : (s.scopeMatch crypto order payloadType payloadRaw code1).name = [] ↔
      ∀ r, ¬ Named crypto s payloadType payloadRaw code1 r := by
  constructor
  · intro hname r hnamed
    obtain ⟨key, hmem, -⟩ := hnamed.1.2.2
    have hr : r ≠ [] := by
      rintro rfl
      exact absurd (h.key _ hmem).1 Bool.false_ne_true
    exact hr ((scopeMatch_name h horder hr).mpr hnamed ▸ hname)
  · intro hnone
    by_contra hname
    exact hnone _ ((scopeMatch_name h horder hname).mp rfl)

/-- Over every history of refreshes the tiers hold what they are to hold, and a packet is
named by evidence, however the map is visited. -/
theorem tiers_hold (sha256 : Bytes → Bytes) (crypto : Crypto) (cfg : Config) (refreshes : List (List Bytes)) :
    Tiers sha256 cfg (lastNames cfg refreshes) (refreshed sha256 cfg refreshes).cur ∧
      ∀ order payloadType payloadRaw code1, order.Perm (refreshed sha256 cfg refreshes).cur.all →
        (∀ r, r ≠ [] →
          (((refreshed sha256 cfg refreshes).cur.scopeMatch crypto order payloadType payloadRaw code1).name = r ↔
            Named crypto (refreshed sha256 cfg refreshes).cur payloadType payloadRaw code1 r)) ∧
        (((refreshed sha256 cfg refreshes).cur.scopeMatch crypto order payloadType payloadRaw code1).name = [] ↔
          ∀ r, ¬ Named crypto (refreshed sha256 cfg refreshes).cur payloadType payloadRaw code1 r) := by
  have htiers := (tiers_refreshed sha256 cfg refreshes).1
  refine ⟨htiers, fun order payloadType payloadRaw code1 horder => ⟨fun r hr => ?_, ?_⟩⟩
  · exact scopeMatch_name htiers.keyed horder hr
  · exact scopeMatch_abstains htiers.keyed horder

def zeroSums : Crypto where
  verify _ _ _ := false
  hmacSHA256 _ _ := List.replicate 32 0
  hmac_length _ _ := rfl
  decryptBlock _ _ := List.replicate 16 0
  decryptBlock_length _ _ := rfl

def nameEU : Bytes := [0x65, 0x75]

def nameNL : Bytes := [0x6E, 0x6C]

def oneRegion (enabled : Bool) : Config := { hashRegions := [nameEU], autoRegionKeysEnabled := enabled }

theorem tiers_hold_oneRegion :
    ((refreshed id (oneRegion true) [[nameNL]]).cur.scopeMatch zeroSums
      [([0x23, 0x6E, 0x6C], [0x23, 0x6E, 0x6C]), ([0x23, 0x65, 0x75], [0x23, 0x65, 0x75])] 5 [1]
      [0x30, 0x31, 0x30, 0x30]).name = [0x23, 0x65, 0x75] := by
  have horder : [([0x23, 0x6E, 0x6C], [0x23, 0x6E, 0x6C]), ([0x23, 0x65, 0x75], [0x23, 0x65, 0x75])].Perm
      (refreshed id (oneRegion true) [[nameNL]]).cur.all := List.Perm.swap _ _ _
  apply (((tiers_hold id zeroSums (oneRegion true) [[nameNL]]).2 _ 5 [1] [0x30, 0x31, 0x30, 0x30] horder).1 _
    (List.cons_ne_nil _ _)).mpr
  refine ⟨⟨by decide, by decide, [0x23, 0x65, 0x75], List.mem_cons_self, by decide⟩, .inr ⟨by decide, ?_⟩⟩
  intro r' _ hexplicit
  exact List.mem_singleton.mp hexplicit

/-- A refresh does nothing where the derived tier is off. -/
theorem not_tiers_switchedOff :
    ¬ Tiers id (oneRegion false) [nameNL] (refreshed id (oneRegion false) [[nameNL]]).cur := by
  intro h
  have hdeclared : Declared [nameNL] (0x23 :: nameNL) :=
    ⟨nameNL, List.mem_singleton_self _, nameNL, by decide, rfl⟩
  have hnot : ¬ Configured (oneRegion false) (0x23 :: nameNL) := by
    rintro ⟨raw, hraw, -, hname⟩
    rw [List.mem_singleton.mp hraw] at hname
    exact absurd hname (by decide)
  exact absurd ((h.derived _).mpr ⟨hdeclared, hnot⟩).1 (by decide)

end MeshcoreAnalyzer.RegionKeys
