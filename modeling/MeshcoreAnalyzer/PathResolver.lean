import MeshcoreAnalyzer.Maps
import Mathlib.Data.Finset.Lattice.Lemmas
import Mathlib.Data.List.GetD

namespace MeshcoreAnalyzer.PathResolver

open Maps

/-! The hop resolution of cmd/ingestor/path_resolver.go. The lowering of a string is a parameter. -/

/-- Which pubkeys are neighbours of which. -/
structure NeighborGraph where
  adj : GoMap String (Finset String)

def newNeighborGraph : NeighborGraph := ⟨Maps.empty⟩

abbrev PrefixIndex := GoMap String (List String)

section Code

variable (toLower : String → String)

/-- `g.adj[a][b] = struct{}{}`, the inner map made first if there is none -/
def NeighborGraph.link (g : NeighborGraph) (a b : String) : NeighborGraph :=
  ⟨set g.adj a (insert b ((g.adj a).getD ∅))⟩

def NeighborGraph.addEdge (g : NeighborGraph) (a b : String) : NeighborGraph :=
  let a := toLower a
  let b := toLower b
  if a = "" ∨ b = "" ∨ a = b then g else (g.link a b).link b a

def isAdjacent : Option NeighborGraph → String → String → Bool
  | none, _, _ => false
  | some g, a, b =>
      let a := toLower a
      let b := toLower b
      if a = "" ∨ b = "" then false
      else match g.adj a with
        | none => false
        | some nbrs => b ∈ nbrs

def survivor (graph : Option NeighborGraph) (anchor : String) (exclude : Finset String) :
    Option String → List String → Option String
  | found, [] => found
  | found, cand :: candidates =>
      if cand ∈ exclude then survivor graph anchor exclude found candidates
      else if isAdjacent toLower graph anchor cand then
        if found.isSome then none else survivor graph anchor exclude (some cand) candidates
      else survivor graph anchor exclude found candidates

def resolveHopWithContext (hop anchor : String) (graph : Option NeighborGraph) (idx : Option PrefixIndex)
    (exclude : Finset String) : Option String :=
  match idx with
  | none => none
  | some idx =>
      match bucket idx (toLower hop) with
      | [] => none
      | [pk] => if pk ∈ exclude then none else some pk
      | candidates =>
          if graph.isNone ∨ anchor = "" then none else survivor toLower graph anchor exclude none candidates

/-- The loop of `resolvePathWithContext`. -/
def walk (graph : Option NeighborGraph) (idx : Option PrefixIndex) :
    String → Finset String → List String → List (Option String)
  | _, _, [] => []
  | prevAnchor, seen, hop :: hops =>
      match resolveHopWithContext toLower hop prevAnchor graph idx seen with
      | some pk => some pk :: walk graph idx (toLower pk) (insert (toLower pk) seen) hops
      | none => none :: walk graph idx "" seen hops

def originator (fromPubkey : String) : Finset String :=
  if toLower fromPubkey = "" then ∅ else {toLower fromPubkey}

def resolvePathWithContext (hops : List String) (fromPubkey : String) (graph : Option NeighborGraph)
    (idx : Option PrefixIndex) : List (Option String) :=
  if idx.isNone then hops.map fun _ => none
  else walk toLower graph idx (toLower fromPubkey) (originator toLower fromPubkey) hops

/-- The resolution of unique prefixes in cmd/ingestor/resolved_path.go. -/
def resolvePath (hops : List String) (idx : Option PrefixIndex) : List (Option String) :=
  match idx with
  | none => hops.map fun _ => none
  | some idx => hops.map fun hop =>
      match bucket idx (toLower hop) with
      | [pk] => some pk
      | _ => none

end Code

variable {toLower : String → String}

section Edges

variable {g : NeighborGraph} {a b x y : String}

def NeighborGraph.Linked (g : NeighborGraph) (a b : String) : Prop := ∃ nbrs, g.adj a = some nbrs ∧ b ∈ nbrs

theorem isAdjacent_iff : isAdjacent toLower (some g) x y = true ↔
    (toLower x ≠ "" ∧ toLower y ≠ "") ∧ g.Linked (toLower x) (toLower y) := by
  rw [isAdjacent]
  split_ifs with hempty
  · exact ⟨False.elim, fun h => absurd hempty (not_or.mpr h.1)⟩
  · cases hadj : g.adj (toLower x) with
    | none =>
        refine ⟨fun h => absurd h Bool.false_ne_true, fun ⟨_, nbrs, hnbrs, _⟩ => ?_⟩
        exact absurd (hadj.symm.trans hnbrs) (Option.some_ne_none nbrs).symm
    | some nbrs =>
        rw [decide_eq_true_iff]
        refine ⟨fun h => ⟨not_or.mp hempty, nbrs, hadj, h⟩, fun ⟨_, nbrs', hnbrs, h⟩ => ?_⟩
        rw [Option.some.inj (hadj.symm.trans hnbrs)]
        exact h

theorem linked_link : (g.link a b).Linked x y ↔ g.Linked x y ∨ (x = a ∧ y = b) := by
  rw [NeighborGraph.Linked, NeighborGraph.link]
  by_cases h : x = a
  · subst h
    cases hadj : g.adj x with
    | none => simp [NeighborGraph.Linked, set_apply, hadj]
    | some nbrs => simp [NeighborGraph.Linked, set_apply, hadj, or_comm]
  · simp [NeighborGraph.Linked, set_apply, h]

theorem isAdjacent_addEdge (ha : toLower y ≠ toLower a) (hb : toLower y ≠ toLower b) :
    isAdjacent toLower (some (g.addEdge toLower a b)) x y = isAdjacent toLower (some g) x y := by
  rw [Bool.eq_iff_iff, isAdjacent_iff, isAdjacent_iff, NeighborGraph.addEdge]
  split_ifs with hskip
  · rfl
  · simp only [linked_link, ha, hb, and_false, or_false]

end Edges

section Hop

variable {graph : Option NeighborGraph} {idx : Option PrefixIndex} {anchor hop pk : String} {exclude : Finset String}

def candidates (toLower : String → String) (idx : Option PrefixIndex) (hop : String) : List String :=
  idx.elim [] fun idx => bucket idx (toLower hop)

def Open (toLower : String → String) (graph : Option NeighborGraph) (anchor : String) (exclude : Finset String)
    (pk : String) : Prop :=
  pk ∉ exclude ∧ isAdjacent toLower graph anchor pk = true

instance : DecidablePred (Open toLower graph anchor exclude) := fun _ => inferInstanceAs (Decidable (_ ∧ _))

theorem survivor_some (x : String) (cands : List String) :
    survivor toLower graph anchor exclude (some x) cands = some pk ↔
      x = pk ∧ cands.filter (Open toLower graph anchor exclude) = [] := by
  induction cands with
  | nil => simp [survivor]
  | cons cand cands ih =>
      rw [survivor]
      split_ifs with hused hadj hfound
      · rw [ih, List.filter_cons_of_neg (by simp [Open, hused])]
      · simp [Open, hused, hadj]
      · exact absurd rfl hfound
      · rw [ih, List.filter_cons_of_neg (by simp [Open, hadj])]

theorem survivor_none (cands : List String) : survivor toLower graph anchor exclude none cands = some pk ↔
    cands.filter (Open toLower graph anchor exclude) = [pk] := by
  induction cands with
  | nil => simp [survivor]
  | cons cand cands ih =>
      rw [survivor]
      split_ifs with hused hadj hfound
      · rw [ih, List.filter_cons_of_neg (by simp [Open, hused])]
      · exact absurd hfound Bool.false_ne_true
      · rw [survivor_some, List.filter_cons_of_pos (by simp [Open, hused, hadj]), List.cons.injEq]
      · rw [ih, List.filter_cons_of_neg (by simp [Open, hadj])]

theorem resolveHop_unique (h : candidates toLower idx hop = [pk]) :
    resolveHopWithContext toLower hop anchor graph idx exclude = if pk ∈ exclude then none else some pk := by
  cases idx with
  | none => exact absurd h (List.cons_ne_nil pk []).symm
  | some idx =>
      have hbucket : bucket idx (toLower hop) = [pk] := h
      rw [resolveHopWithContext]
      simp only [hbucket]

theorem resolveHop_several (h : ∀ x, candidates toLower idx hop ≠ [x])
    (hpk : resolveHopWithContext toLower hop anchor graph idx exclude = some pk) :
    anchor ≠ "" ∧ (candidates toLower idx hop).filter (Open toLower graph anchor exclude) = [pk] := by
  cases idx with
  | none => cases hpk
  | some idx =>
      rw [candidates, Option.elim_some] at h ⊢
      rw [resolveHopWithContext] at hpk
      cases hbucket : bucket idx (toLower hop) with
      | nil =>
          rw [hbucket] at hpk
          cases hpk
      | cons x xs =>
          cases xs with
          | nil => exact absurd hbucket (h x)
          | cons y ys =>
              rw [hbucket] at hpk
              dsimp only at hpk
              split_ifs at hpk with hnone
              exact ⟨fun hempty => hnone (.inr hempty), (survivor_none _).mp hpk⟩

theorem resolveHop_mem (hpk : resolveHopWithContext toLower hop anchor graph idx exclude = some pk) :
    pk ∈ candidates toLower idx hop ∧ pk ∉ exclude := by
  by_cases h : ∃ x, candidates toLower idx hop = [x]
  · obtain ⟨x, hx⟩ := h
    rw [resolveHop_unique hx] at hpk
    split_ifs at hpk with hused
    rw [hx, ← Option.some.inj hpk]
    exact ⟨List.mem_singleton_self x, hused⟩
  · obtain ⟨-, hfilter⟩ := resolveHop_several (not_exists.mp h) hpk
    have hmem : pk ∈ (candidates toLower idx hop).filter (Open toLower graph anchor exclude) :=
      hfilter ▸ List.mem_singleton_self pk
    obtain ⟨hcand, hopen⟩ := List.mem_filter.mp hmem
    exact ⟨hcand, (of_decide_eq_true hopen).1⟩

theorem resolveHop_congr {g g' : NeighborGraph}
    (h : ∀ x, ∀ y ∈ candidates toLower idx hop, isAdjacent toLower (some g) x y = isAdjacent toLower (some g') x y) :
    resolveHopWithContext toLower hop anchor (some g) idx exclude =
      resolveHopWithContext toLower hop anchor (some g') idx exclude := by
  have hloop : ∀ cands : List String, (∀ y ∈ cands, y ∈ candidates toLower idx hop) → ∀ found,
      survivor toLower (some g) anchor exclude found cands = survivor toLower (some g') anchor exclude found cands := by
    intro cands
    induction cands with
    | nil => exact fun _ _ => rfl
    | cons cand cands ih =>
        intro hcands found
        rw [List.forall_mem_cons] at hcands
        rw [survivor, survivor, h anchor cand hcands.1, ih hcands.2, ih hcands.2]
  cases idx with
  | none => rfl
  | some idx =>
      specialize hloop (bucket idx (toLower hop)) fun _ hy => hy
      rw [resolveHopWithContext, resolveHopWithContext]
      cases hbucket : bucket idx (toLower hop) with
      | nil => rfl
      | cons x xs =>
          cases xs with
          | nil => rfl
          | cons y ys =>
              rw [hbucket] at hloop
              dsimp only
              rw [hloop]
              rfl

end Hop

section Walk

variable {graph : Option NeighborGraph} {idx : Option PrefixIndex} {anchor pk : String} {seen : Finset String}

def resolved (out : List (Option String)) : List String := out.filterMap id

theorem mem_resolved {out : List (Option String)} : pk ∈ resolved out ↔ some pk ∈ out := by
  simp [resolved]

def anchorAt (toLower : String → String) (anchor : String) (out : List (Option String)) : Nat → String
  | 0 => anchor
  | i + 1 => (out[i]?.join.map toLower).getD ""

def usedAt (toLower : String → String) (seen : Finset String) (out : List (Option String)) (i : Nat) : Finset String :=
  seen ∪ ((resolved (out.take i)).map toLower).toFinset

theorem usedAt_zero (out : List (Option String)) : usedAt toLower seen out 0 = seen := by
  simp [usedAt, resolved]

theorem usedAt_none (out : List (Option String)) (i : Nat) :
    usedAt toLower seen (none :: out) (i + 1) = usedAt toLower seen out i := by
  simp [usedAt, resolved]

theorem usedAt_some (out : List (Option String)) (i : Nat) :
    usedAt toLower seen (some pk :: out) (i + 1) = usedAt toLower (insert (toLower pk) seen) out i := by
  ext x
  simp [usedAt, resolved]

theorem walk_getElem? (hops : List String) : ∀ (anchor : String) (seen : Finset String) (i : Nat),
    (walk toLower graph idx anchor seen hops)[i]? = hops[i]?.map fun hop =>
      resolveHopWithContext toLower hop (anchorAt toLower anchor (walk toLower graph idx anchor seen hops) i) graph idx
        (usedAt toLower seen (walk toLower graph idx anchor seen hops) i) := by
  induction hops with
  | nil => exact fun _ _ _ => rfl
  | cons hop hops ih =>
      intro anchor seen i
      rw [walk]
      cases hr : resolveHopWithContext toLower hop anchor graph idx seen with
      | none =>
          cases i with
          | zero => simp [anchorAt, usedAt_zero, hr]
          | succ i =>
              rw [List.getElem?_cons_succ, List.getElem?_cons_succ, ih]
              dsimp only
              rw [usedAt_none]
              cases i <;> rfl
      | some pk =>
          cases i with
          | zero => simp [anchorAt, usedAt_zero, hr]
          | succ i =>
              rw [List.getElem?_cons_succ, List.getElem?_cons_succ, ih]
              dsimp only
              rw [usedAt_some]
              cases i <;> rfl

theorem length_walk (hops : List String) (anchor : String) (seen : Finset String) :
    (walk toLower graph idx anchor seen hops).length = hops.length := by
  induction hops generalizing anchor seen with
  | nil => rfl
  | cons hop hops ih =>
      rw [walk]
      cases resolveHopWithContext toLower hop anchor graph idx seen with
      | none => exact congrArg Nat.succ (ih _ _)
      | some pk => exact congrArg Nat.succ (ih _ _)

/-- The candidates are spelled in lower case. -/
def LowerCase (toLower : String → String) (idx : Option PrefixIndex) : Prop :=
  ∀ hop, ∀ pk ∈ candidates toLower idx hop, toLower pk = pk

theorem walk_fresh (hidx : LowerCase toLower idx) (hops : List String) (anchor : String) (seen : Finset String) :
    (resolved (walk toLower graph idx anchor seen hops)).Nodup ∧
      ∀ pk ∈ resolved (walk toLower graph idx anchor seen hops), toLower pk = pk ∧ pk ∉ seen := by
  induction hops generalizing anchor seen with
  | nil => exact ⟨List.nodup_nil, fun pk h => absurd h List.not_mem_nil⟩
  | cons hop hops ih =>
      rw [walk]
      cases hr : resolveHopWithContext toLower hop anchor graph idx seen with
      | none => exact ih _ _
      | some pk =>
          obtain ⟨hcand, hfresh⟩ := resolveHop_mem hr
          have hlower := hidx hop pk hcand
          obtain ⟨hnodup, hrest⟩ := ih (toLower pk) (insert (toLower pk) seen)
          rw [hlower] at hnodup hrest
          dsimp only
          rw [hlower]
          refine ⟨List.nodup_cons.mpr ⟨fun hmem => ?_, hnodup⟩, fun x hx => ?_⟩
          · exact (hrest pk hmem).2 (Finset.mem_insert_self pk seen)
          · rcases List.mem_cons.mp hx with rfl | hx
            · exact ⟨hlower, hfresh⟩
            · exact ⟨(hrest x hx).1, fun hseen => (hrest x hx).2 (Finset.mem_insert_of_mem hseen)⟩

theorem walk_congr {g g' : NeighborGraph} {hops : List String} (h : ∀ hop ∈ hops, ∀ x, ∀ y ∈ candidates toLower idx hop,
      isAdjacent toLower (some g) x y = isAdjacent toLower (some g') x y) (anchor : String) (seen : Finset String) :
    walk toLower (some g) idx anchor seen hops = walk toLower (some g') idx anchor seen hops := by
  induction hops generalizing anchor seen with
  | nil => rfl
  | cons hop hops ih =>
      rw [List.forall_mem_cons] at h
      rw [walk, walk, resolveHop_congr h.1]
      cases resolveHopWithContext toLower hop anchor (some g') idx seen with
      | none => exact congrArg (none :: ·) (ih h.2 _ _)
      | some pk => exact congrArg (some pk :: ·) (ih h.2 _ _)

end Walk

section Path

variable {graph : Option NeighborGraph} {idx : Option PrefixIndex} {hops : List String} {fromPubkey hop pk : String}
  {i : Nat}

theorem walk_nil (hops : List String) (anchor : String) (seen : Finset String) :
    walk toLower graph none anchor seen hops = hops.map fun _ => none := by
  induction hops generalizing anchor seen with
  | nil => rfl
  | cons hop hops ih => exact congrArg (none :: ·) (ih "" seen)

theorem resolvePathWithContext_eq : resolvePathWithContext toLower hops fromPubkey graph idx =
    walk toLower graph idx (toLower fromPubkey) (originator toLower fromPubkey) hops := by
  cases idx with
  | none => exact (walk_nil hops _ _).symm
  | some idx => rfl

theorem resolvePath_getElem? : (resolvePath toLower hops idx)[i]? = some (some pk) ↔
    ∃ hop, hops[i]? = some hop ∧ candidates toLower idx hop = [pk] := by
  cases idx with
  | none =>
      refine ⟨fun h => ?_, fun ⟨hop, _, h⟩ => absurd h.symm (List.cons_ne_nil _ _)⟩
      obtain ⟨_, _, hnone⟩ := List.mem_map.mp (List.mem_of_getElem? h)
      cases hnone
  | some idx =>
      rw [resolvePath, List.getElem?_map, Option.map_eq_some_iff]
      refine exists_congr fun hop => and_congr_right fun _ => ?_
      rw [candidates, Option.elim_some]
      cases bucket idx (toLower hop) with
      | nil => simp
      | cons x xs => cases xs <;> simp

/-- The pubkeys that a path has used before a place: its originator and what the hops before were resolved to. -/
def Used (toLower : String → String) (fromPubkey : String) (out : List (Option String)) (i : Nat) (pk : String) :
    Prop :=
  pk ∈ originator toLower fromPubkey ∨ some pk ∈ out.take i

/-- What the context resolution promises of a path. -/
structure Sound (toLower : String → String) (hops : List String) (fromPubkey : String) (graph : Option NeighborGraph)
    (idx : Option PrefixIndex) (out : List (Option String)) : Prop where
  length : out.length = hops.length
  candidate : ∀ (i : Nat) (hop pk : String), hops[i]? = some hop → out[i]? = some (some pk) →
    pk ∈ candidates toLower idx hop
  distinct : (resolved out).Nodup
  stranger : ∀ pk ∈ resolved out, pk ∉ originator toLower fromPubkey
  adjacent : ∀ (i : Nat) (hop pk : String), hops[i]? = some hop → out[i]? = some (some pk) →
    (∀ x, candidates toLower idx hop ≠ [x]) → ∃ anchor,
    ((i = 0 ∧ anchor = toLower fromPubkey) ∨ ∃ j, i = j + 1 ∧ out[j]? = some (some anchor)) ∧
      isAdjacent toLower graph anchor pk = true ∧
      ∀ other ∈ candidates toLower idx hop, isAdjacent toLower graph anchor other = true →
        other = pk ∨ Used toLower fromPubkey out i other
  unique : ∀ (i : Nat) (hop pk : String), hops[i]? = some hop → candidates toLower idx hop = [pk] →
    out[i]? = some (some pk) ∨ Used toLower fromPubkey out i pk
  extends_unique : ∀ (i : Nat) (pk : String), (resolvePath toLower hops idx)[i]? = some (some pk) →
    out[i]? = some (some pk) ∨ Used toLower fromPubkey out i pk

theorem mem_usedAt {out : List (Option String)} (hlower : ∀ pk ∈ resolved out, toLower pk = pk) :
    pk ∈ usedAt toLower (originator toLower fromPubkey) out i ↔ Used toLower fromPubkey out i pk := by
  rw [usedAt, Finset.mem_union, List.mem_toFinset, List.mem_map, Used]
  refine or_congr_right ⟨?_, fun h => ?_⟩
  · rintro ⟨x, hx, rfl⟩
    have hmem := mem_resolved.mp hx
    rw [hlower x (mem_resolved.mpr (List.mem_of_mem_take hmem))]
    exact hmem
  · exact ⟨pk, mem_resolved.mpr h, hlower pk (mem_resolved.mpr (List.mem_of_mem_take h))⟩

theorem Sound.of_steps {out : List (Option String)} (hlength : out.length = hops.length)
    (hget : ∀ i : Nat, out[i]? = hops[i]?.map fun hop => resolveHopWithContext toLower hop
      (anchorAt toLower (toLower fromPubkey) out i) graph idx (usedAt toLower (originator toLower fromPubkey) out i))
    (hnodup : (resolved out).Nodup)
    (hfresh : ∀ pk ∈ resolved out, toLower pk = pk ∧ pk ∉ originator toLower fromPubkey) :
    Sound toLower hops fromPubkey graph idx out := by
  have hlower : ∀ pk ∈ resolved out, toLower pk = pk := fun pk h => (hfresh pk h).1
  have hresolve : ∀ {i : Nat} {hop pk : String}, hops[i]? = some hop → out[i]? = some (some pk) →
      resolveHopWithContext toLower hop (anchorAt toLower (toLower fromPubkey) out i) graph idx
        (usedAt toLower (originator toLower fromPubkey) out i) = some pk := by
    intro i hop pk hhop hout
    rw [hget, hhop] at hout
    exact Option.some.inj hout
  have hunique : ∀ (i : Nat) (hop pk : String), hops[i]? = some hop → candidates toLower idx hop = [pk] →
      out[i]? = some (some pk) ∨ Used toLower fromPubkey out i pk := by
    intro i hop pk hhop hcand
    rw [hget, hhop, Option.map_some, resolveHop_unique hcand]
    split_ifs with hused
    · exact .inr ((mem_usedAt hlower).mp hused)
    · exact .inl rfl
  refine ⟨hlength, fun i hop pk hhop hout => (resolveHop_mem (hresolve hhop hout)).1, hnodup,
    fun pk h => (hfresh pk h).2, fun i hop pk hhop hout hseveral => ?_, hunique, fun i pk h => ?_⟩
  · obtain ⟨hanchor, hfilter⟩ := resolveHop_several hseveral (hresolve hhop hout)
    have hopen : pk ∈ (candidates toLower idx hop).filter _ := hfilter ▸ List.mem_singleton_self pk
    refine ⟨anchorAt toLower (toLower fromPubkey) out i, ?_, ?_, fun other hother hadj => ?_⟩
    · cases i with
      | zero => exact .inl ⟨rfl, rfl⟩
      | succ j =>
          rw [anchorAt] at hanchor ⊢
          cases hprev : out[j]? with
          | none => exact absurd (by rw [hprev]; rfl) hanchor
          | some r =>
              cases r with
              | none => exact absurd (by rw [hprev]; rfl) hanchor
              | some prev =>
                  have hmem : prev ∈ resolved out := mem_resolved.mpr (List.mem_of_getElem? hprev)
                  refine .inr ⟨j, rfl, ?_⟩
                  rw [hprev]
                  exact congrArg (some ∘ some) (hlower prev hmem).symm
    · exact (of_decide_eq_true (List.mem_filter.mp hopen).2).2
    · by_cases hused : other ∈ usedAt toLower (originator toLower fromPubkey) out i
      · exact .inr ((mem_usedAt hlower).mp hused)
      · left
        apply List.mem_singleton.mp
        rw [← hfilter]
        exact List.mem_filter.mpr ⟨hother, decide_eq_true ⟨hused, hadj⟩⟩
  · obtain ⟨hop, hhop, hcand⟩ := resolvePath_getElem?.mp h
    exact hunique i hop pk hhop hcand

theorem resolvePathWithContext_addEdges (hidx : LowerCase toLower idx) (g : NeighborGraph)
    (edges : List (String × String))
    (hedges : ∀ e ∈ edges, ∀ hop ∈ hops, ∀ pk ∈ candidates toLower idx hop, pk ≠ toLower e.1 ∧ pk ≠ toLower e.2) :
    resolvePathWithContext toLower hops fromPubkey (some (edges.foldl (fun g e => g.addEdge toLower e.1 e.2) g)) idx =
      resolvePathWithContext toLower hops fromPubkey (some g) idx := by
  induction edges generalizing g with
  | nil => rfl
  | cons e edges ih =>
      rw [List.forall_mem_cons] at hedges
      rw [List.foldl_cons, ih _ hedges.2, resolvePathWithContext_eq, resolvePathWithContext_eq]
      apply walk_congr
      intro hop hhop x y hy
      obtain ⟨ha, hb⟩ := hedges.1 hop hhop y hy
      rw [← hidx hop y hy] at ha hb
      exact isAdjacent_addEdge ha hb

/-- The resolution with the neighbour graph is sound, goes on where that of unique prefixes stops, and asks the graph
about candidates only. -/
theorem resolvePathWithContext_sound (toLower : String → String) (hops : List String) (fromPubkey : String)
    (graph : Option NeighborGraph) (idx : Option PrefixIndex) (hidx : LowerCase toLower idx) :
    Sound toLower hops fromPubkey graph idx (resolvePathWithContext toLower hops fromPubkey graph idx) ∧
      ∀ g, graph = some g → ∀ edges : List (String × String),
        (∀ e ∈ edges, ∀ hop ∈ hops, ∀ pk ∈ candidates toLower idx hop, pk ≠ toLower e.1 ∧ pk ≠ toLower e.2) →
        resolvePathWithContext toLower hops fromPubkey
            (some (edges.foldl (fun g e => g.addEdge toLower e.1 e.2) g)) idx =
          resolvePathWithContext toLower hops fromPubkey graph idx := by
  refine ⟨?_, fun g hg edges hedges => ?_⟩
  · rw [resolvePathWithContext_eq]
    have hfresh := @walk_fresh toLower graph idx hidx hops (toLower fromPubkey) (originator toLower fromPubkey)
    exact .of_steps (length_walk _ _ _) (walk_getElem? _ _ _) hfresh.1 hfresh.2
  · rw [hg]
    exact resolvePathWithContext_addEdges hidx g edges hedges

end Path

def sharedIndex : PrefixIndex :=
  fun k => if k = "ab" then some ["ab01", "ab02"] else if k = "cd" then some ["cd01"] else none

theorem lowerCase_sharedIndex : LowerCase String.toLower (some sharedIndex) := by
  intro hop pk hpk
  have hmem : pk ∈ ["ab01", "ab02", "cd01"] := by
    rw [candidates, Option.elim_some, bucket, sharedIndex] at hpk
    split_ifs at hpk
    · exact List.mem_append_left ["cd01"] hpk
    · exact List.mem_append_right ["ab01", "ab02"] hpk
    · exact absurd hpk List.not_mem_nil
  have hall : ∀ x ∈ ["ab01", "ab02", "cd01"], String.toLower x = x := by decide +kernel
  exact hall pk hmem

def sharedGraph : NeighborGraph := newNeighborGraph.addEdge String.toLower "CD01" "AB02"

theorem resolvePathWithContext_sound_shared : Sound String.toLower ["CD", "AB"] "" (some sharedGraph) (some sharedIndex)
    (resolvePathWithContext String.toLower ["CD", "AB"] "" (some sharedGraph) (some sharedIndex)) :=
  (resolvePathWithContext_sound String.toLower ["CD", "AB"] "" (some sharedGraph) (some sharedIndex)
    lowerCase_sharedIndex).1

end MeshcoreAnalyzer.PathResolver
