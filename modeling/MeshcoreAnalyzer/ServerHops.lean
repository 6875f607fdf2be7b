import Mathlib.Algebra.Order.Field.Rat
import MeshcoreAnalyzer.Layers

namespace MeshcoreAnalyzer.ServerHops

open Maps Layers

/-! The hops that the server has resolved, `resolveFromServer` of public/hop-resolver.js. -/

structure Node where
  publicKey : Option String
  name : Option String
  lat : Option ℚ
  lon : Option ℚ

structure Candidate where
  name : Option String
  pubkey : String
  lat : Option ℚ
  lon : Option ℚ

structure HopEntry where
  name : Option String
  pubkey : String
  candidates : List Candidate
  conflicts : List Candidate

def truthy (s : Option String) : Option String := s.filter (· ≠ "")

/-- What `init` builds for `resolveFromServer`: the nodes by their keys, in lower case. -/
def pubkeyIdx (nodes : List Node) : GoMap String Node :=
  nodes.foldl (fun idx n => match truthy n.publicKey with
    | some key => set idx key.toLower n
    | none => idx) empty

def hopEntry (idx : GoMap String Node) (pubkey : String) : HopEntry :=
  match idx pubkey.toLower with
  | some node => ⟨node.name, pubkey, [⟨node.name, pubkey, node.lat, node.lon⟩], []⟩
  | none => ⟨some (String.ofList (pubkey.toList.take 8)), pubkey, [], []⟩

def resolveFromServer (idx : GoMap String Node) (hops : List String) (resolvedPath : List (Option String)) :
    GoMap String HopEntry :=
  if hops.length ≠ resolvedPath.length then empty
  else (hops.zip resolvedPath).foldl (fun result p => match truthy p.2 with
    | some pubkey => set result p.1 (hopEntry idx pubkey)
    | none => result) empty

/-- What the client shows along the path: at each hop the key that the server has resolved it to, and none where
there is none. -/
def ShowsResolved (nodes : List Node) (path : List (String × Option String)) : Prop :=
  ∀ p ∈ path,
    (resolveFromServer (pubkeyIdx nodes) (path.map Prod.fst) (path.map Prod.snd) p.1).map HopEntry.pubkey = p.2

variable {idx : GoMap String Node} {nodes : List Node} {path : List (String × Option String)}

@[simp] theorem pubkey_hopEntry (pubkey : String) : (hopEntry idx pubkey).pubkey = pubkey := by
  rw [hopEntry]
  split <;> rfl

def written (idx : GoMap String Node) (path : List (String × Option String)) : List (String × HopEntry) :=
  path.filterMap fun p => (truthy p.2).map fun pubkey => (p.1, hopEntry idx pubkey)

theorem truthy_eq_some {s : Option String} {t : String} : truthy s = some t ↔ s = some t ∧ t ≠ "" := by
  rw [truthy, Option.filter_eq_some_iff, decide_eq_true_eq]

theorem resolveFromServer_eq :
    resolveFromServer idx (path.map Prod.fst) (path.map Prod.snd) = write empty (written idx path) := by
  have hsame : ¬ (path.map Prod.fst).length ≠ (path.map Prod.snd).length := by simp
  have hzip : (path.map Prod.fst).zip (path.map Prod.snd) = path := (List.zip_of_prod rfl rfl).symm
  rw [resolveFromServer, if_neg hsame, hzip, write, written, List.foldl_filterMap]
  congr 1
  funext result p
  cases truthy p.2 <;> rfl

theorem mem_written {hop : String} {e : HopEntry} :
    (hop, e) ∈ written idx path ↔ ∃ pubkey, (hop, some pubkey) ∈ path ∧ pubkey ≠ "" ∧ hopEntry idx pubkey = e := by
  rw [written, List.mem_filterMap]
  constructor
  · rintro ⟨⟨hop', s⟩, hp, hs⟩
    obtain ⟨pubkey, hpubkey, heq⟩ := Option.map_eq_some_iff.mp hs
    obtain ⟨rfl, hne⟩ := truthy_eq_some.mp hpubkey
    obtain ⟨rfl, rfl⟩ := Prod.mk.inj heq
    exact ⟨pubkey, hp, hne, rfl⟩
  · rintro ⟨pubkey, hp, hne, rfl⟩
    refine ⟨_, hp, ?_⟩
    rw [truthy_eq_some.mpr ⟨rfl, hne⟩]
    rfl

theorem exists_of_lookup {hop pubkey : String}
    (h : (resolveFromServer idx (path.map Prod.fst) (path.map Prod.snd) hop).map HopEntry.pubkey = some pubkey) :
    (hop, some pubkey) ∈ path ∧ pubkey ≠ "" := by
  obtain ⟨e, he, rfl⟩ := Option.map_eq_some_iff.mp h
  rw [resolveFromServer_eq] at he
  rcases mem_of_write he with hmem | hempty
  · obtain ⟨pubkey, hp, hne, rfl⟩ := mem_written.mp hmem
    rw [pubkey_hopEntry]
    exact ⟨hp, hne⟩
  · cases hempty

theorem lookup_of_mem {hop pubkey : String} (h : (hop, some pubkey) ∈ path) (hne : pubkey ≠ "") :
    ∃ shown, (resolveFromServer idx (path.map Prod.fst) (path.map Prod.snd) hop).map HopEntry.pubkey = some shown := by
  have hwritten : (hop, hopEntry idx pubkey) ∈ written idx path := mem_written.mpr ⟨pubkey, h, hne, rfl⟩
  obtain ⟨e, he⟩ := Option.ne_none_iff_exists'.mp (write_of_mem (m := empty) hwritten)
  rw [resolveFromServer_eq, he]
  exact ⟨e.pubkey, rfl⟩

/-- The client shows what the server has resolved if and only if equal hops of the path have equal resolutions. -/
theorem showsResolved_iff (nodes : List Node) (path : List (String × Option String)) : ShowsResolved nodes path ↔
    (∀ p ∈ path, p.2 ≠ some "") ∧ ∀ p ∈ path, ∀ p' ∈ path, p.1 = p'.1 → p.2 = p'.2 := by
  constructor
  · intro h
    refine ⟨fun p hp hempty => ?_, fun p hp p' hp' heq => ?_⟩
    · have hshown := h p hp
      rw [hempty] at hshown
      exact (exists_of_lookup hshown).2 rfl
    · rw [← h p hp, ← h p' hp', heq]
  · rintro ⟨hnonempty, hsame⟩ p hp
    cases hlookup : (resolveFromServer (pubkeyIdx nodes) (path.map Prod.fst) (path.map Prod.snd) p.1).map
        HopEntry.pubkey with
    | some pubkey =>
        have hmem := (exists_of_lookup hlookup).1
        exact (hsame p hp _ hmem rfl).symm
    | none =>
        obtain ⟨hop, resolved⟩ := p
        cases resolved with
        | none => rfl
        | some pubkey =>
            have hne : pubkey ≠ "" := fun hempty => hnonempty _ hp (congrArg some hempty)
            obtain ⟨shown, hshown⟩ := @lookup_of_mem (pubkeyIdx nodes) path hop pubkey hp hne
            rw [hlookup] at hshown
            cases hshown

/-- A prefix that two nodes of the path have in common: the first of them is shown as the second. -/
theorem not_showsResolved_twice : ¬ ∀ nodes path, ShowsResolved nodes path := by
  intro h
  have hshown := h [] [("aa", some "aa01"), ("aa", some "aa02")] ("aa", some "aa01") List.mem_cons_self
  have hlast : some "aa02" = some "aa01" := hshown
  exact absurd hlast (by decide)

end MeshcoreAnalyzer.ServerHops
