import MeshcoreAnalyzer.Runs
import Mathlib.Data.List.TakeWhile
import Mathlib.Logic.Function.Basic

namespace MeshcoreAnalyzer.ReadThrough

open Runs

/-! A cache with one entry over a store: readers that miss compute the result and put
it there, writers drop it. The store and the cache have a lock each, so what a reader
does falls into three sections. -/

variable {S Q T B : Type} [DecidableEq T]

structure Service (S Q T B : Type) where
  compute : S → Int → Q → B
  sig : Q → T
  ttl : Int

inductive Reader (Q B : Type)
  | idle
  | missed (q : Q)
  | computed (q : Q) (b : B)

structure Entry (T B : Type) where
  sig : T
  result : B
  setAt : Int

/-- A writer that has the lock of the store has changed it, or not, since the entry
was dropped. -/
structure State (S Q T B : Type) where
  store : S
  writing : Bool
  dirty : Bool
  entry : Option (Entry T B)
  now : Int
  readers : Nat → Reader Q B

def State.new (s : S) (now : Int) : State S Q T B := ⟨s, false, false, none, now, fun _ => .idle⟩

inductive Action (S Q : Type)
  | lock
  | change (s : S)
  | invalidate
  | unlock
  | tick (d : Nat)
  | check (i : Nat) (q : Q)
  | compute (i : Nat)
  | publish (i : Nat)

def State.lookup (svc : Service S Q T B) (st : State S Q T B) (q : Q) : Option B :=
  match st.entry with
  | some e => if e.sig = svc.sig q ∧ st.now - e.setAt < svc.ttl then some e.result else none
  | none => none

theorem State.lookup_eq_some_iff {svc : Service S Q T B} {st : State S Q T B} {q : Q} {b : B} :
    st.lookup svc q = some b ↔
      ∃ e, st.entry = some e ∧ e.sig = svc.sig q ∧ st.now - e.setAt < svc.ttl ∧ e.result = b := by
  rw [State.lookup]
  cases st.entry with
  | none => simp
  | some e => simp [and_assoc]

def step (svc : Service S Q T B) (st : State S Q T B) : Action S Q → State S Q T B
  | .lock => { st with writing := true }
  | .change s => { st with store := s, dirty := true }
  | .invalidate => { st with entry := none, dirty := false }
  | .unlock => { st with writing := false }
  | .tick d => { st with now := st.now + d }
  | .check i q =>
      if (st.lookup svc q).isSome then st
      else { st with readers := Function.update st.readers i (.missed q) }
  | .compute i =>
      match st.readers i with
      | .missed q =>
          { st with readers := Function.update st.readers i (.computed q (svc.compute st.store st.now q)) }
      | _ => st
  | .publish i =>
      match st.readers i with
      | .computed q b =>
          { st with entry := some ⟨svc.sig q, b, st.now⟩, readers := Function.update st.readers i .idle }
      | _ => st

/-- A writer drops the entry after its last change. Nothing is computed while it has
the lock. -/
def Enabled (st : State S Q T B) : Action S Q → Prop
  | .lock => st.writing = false
  | .change _ => st.writing = true
  | .invalidate => st.writing = true
  | .unlock => st.writing = true ∧ st.dirty = false
  | .tick _ => True
  | .check i _ => st.readers i = .idle
  | .compute i => st.writing = false ∧ ∃ q, st.readers i = .missed q
  | .publish i => ∃ q b, st.readers i = .computed q b

def Action.isCompute (i : Nat) : Action S Q → Bool
  | .compute j => j = i
  | _ => false

def sinceCompute (i : Nat) (acts : List (Action S Q)) : List (Action S Q) :=
  acts.reverse.takeWhile fun a => !a.isCompute i

theorem sinceCompute_snoc (i : Nat) (acts : List (Action S Q)) (a : Action S Q) :
    sinceCompute i (acts ++ [a]) = if a.isCompute i then [] else a :: sinceCompute i acts := by
  rw [sinceCompute]
  rw [List.reverse_append, List.reverse_singleton, List.singleton_append, List.takeWhile_cons]
  cases a.isCompute i <;> rfl

/-- No result is published that was computed before the entry was dropped last. -/
def Timely (acts : List (Action S Q)) : Prop :=
  ∀ done i, done ++ [.publish i] <+: acts → .invalidate ∉ sinceCompute i done

theorem Timely.of_prefix {acts acts' : List (Action S Q)} (h : Timely acts') (hp : acts <+: acts') :
    Timely acts := fun done i hd => h done i (hd.trans hp)

variable (svc : Service S Q T B) (start : State S Q T B)

/-- The result was computed, while no writer had the lock, from the store of a state
since which the entry has not been dropped. -/
def Fresh (acts : List (Action S Q)) (sig : T) (b : B) : Prop :=
  ∃ done since q, acts = done ++ since ∧ .invalidate ∉ since ∧ svc.sig q = sig ∧
    (done.foldl (step svc) start).writing = false ∧
    b = svc.compute (done.foldl (step svc) start).store (done.foldl (step svc) start).now q

def Pending (acts : List (Action S Q)) (i : Nat) (q : Q) (b : B) : Prop :=
  ∃ done since, acts = done ++ .compute i :: since ∧ sinceCompute i acts = since.reverse ∧
    (done.foldl (step svc) start).writing = false ∧
    b = svc.compute (done.foldl (step svc) start).store (done.foldl (step svc) start).now q

variable {svc start} {acts : List (Action S Q)} {a : Action S Q} {i : Nat} {q : Q} {b : B}

theorem Fresh.snoc {sig : T} (h : Fresh svc start acts sig b) (ha : a ≠ .invalidate) :
    Fresh svc start (acts ++ [a]) sig b := by
  obtain ⟨done, since, q, rfl, hsince, hsig, hwriting, hb⟩ := h
  refine ⟨done, since ++ [a], q, List.append_assoc _ _ _, ?_, hsig, hwriting, hb⟩
  rw [List.mem_append, List.mem_singleton]
  rintro (hmem | rfl)
  · exact hsince hmem
  · exact ha rfl

theorem Pending.snoc (h : Pending svc start acts i q b) (ha : a.isCompute i = false) :
    Pending svc start (acts ++ [a]) i q b := by
  obtain ⟨done, since, hacts, hsince, hwriting, hb⟩ := h
  refine ⟨done, since ++ [a], ?_, ?_, hwriting, hb⟩
  · rw [hacts, List.append_assoc, List.cons_append]
  · rw [sinceCompute_snoc, ha, hsince, List.reverse_append]
    rfl

theorem Pending.fresh (h : Pending svc start acts i q b) (hsince : .invalidate ∉ sinceCompute i acts) :
    Fresh svc start acts (svc.sig q) b := by
  obtain ⟨done, since, hacts, heq, hwriting, hb⟩ := h
  refine ⟨done, .compute i :: since, q, hacts, ?_, rfl, hwriting, hb⟩
  rw [heq, List.mem_reverse] at hsince
  rw [List.mem_cons]
  rintro (h | h)
  · cases h
  · exact hsince h

theorem computed_step {st : State S Q T B} (ha : Enabled st a)
    (h : (step svc st a).readers i = .computed q b) :
    (st.readers i = .computed q b ∧ a.isCompute i = false) ∨
      a = .compute i ∧ st.writing = false ∧ b = svc.compute st.store st.now q := by
  have hother : ∀ {j : Nat} {r : Reader Q B}, Function.update st.readers j r i = .computed q b →
      (∀ q b, r ≠ .computed q b) → st.readers i = .computed q b := by
    intro j r hr hne
    rw [Function.update_apply] at hr
    split at hr
    · exact absurd hr (hne q b)
    · exact hr
  cases a with
  | lock | change | invalidate | unlock | tick => exact .inl ⟨h, rfl⟩
  | check j p =>
      refine .inl ⟨?_, rfl⟩
      unfold step at h
      dsimp only at h
      split at h
      · exact h
      · exact hother h fun _ _ hr => (by cases hr)
  | publish j =>
      refine .inl ⟨?_, rfl⟩
      obtain ⟨p, c, hj⟩ := ha
      unfold step at h
      dsimp only at h
      rw [hj] at h
      exact hother h fun _ _ hr => (by cases hr)
  | compute j =>
      obtain ⟨hwriting, p, hj⟩ := ha
      unfold step at h
      dsimp only at h
      rw [hj] at h
      replace h : Function.update st.readers j _ i = .computed q b := h
      by_cases hij : i = j
      · subst hij
        rw [Function.update_self] at h
        cases h
        exact .inr ⟨rfl, hwriting, rfl⟩
      · rw [Function.update_of_ne hij] at h
        exact .inl ⟨h, decide_eq_false (Ne.symm hij)⟩

theorem entry_step {st : State S Q T B} (ha : Enabled st a) {e : Entry T B}
    (h : (step svc st a).entry = some e) :
    (st.entry = some e ∧ a ≠ .invalidate) ∨
      ∃ i q, a = .publish i ∧ st.readers i = .computed q e.result ∧ e.sig = svc.sig q := by
  cases a with
  | invalidate => cases h
  | lock | change | unlock | tick => exact .inl ⟨h, fun h => (by cases h)⟩
  | check j p =>
      refine .inl ⟨?_, fun h => (by cases h)⟩
      unfold step at h
      dsimp only at h
      split at h
      · exact h
      · exact h
  | compute j =>
      refine .inl ⟨?_, fun h => (by cases h)⟩
      obtain ⟨_, p, hj⟩ := ha
      unfold step at h
      dsimp only at h
      rw [hj] at h
      exact h
  | publish j =>
      obtain ⟨p, c, hj⟩ := ha
      unfold step at h
      dsimp only at h
      rw [hj] at h
      cases h
      exact .inr ⟨j, p, rfl, hj, rfl⟩

/-- What is in the cache is fresh, and what the readers have is what they computed last. -/
structure Inv (svc : Service S Q T B) (start : State S Q T B) (acts : List (Action S Q)) : Prop where
  entry : ∀ e, (acts.foldl (step svc) start).entry = some e → Fresh svc start acts e.sig e.result
  readers : ∀ i q b, (acts.foldl (step svc) start).readers i = .computed q b → Pending svc start acts i q b

theorem inv_of_timely {s : S} {now : Int} (hrun : Along (step svc) Enabled (State.new s now) acts)
    (htimely : Timely acts) : Inv svc (State.new s now) acts := by
  induction acts using List.reverseRecOn with
  | nil => exact ⟨fun _ h => (by cases h), fun _ _ _ h => (by cases h)⟩
  | append_singleton acts a ih =>
      obtain ⟨hbefore, ha, _⟩ := along_append.mp hrun
      have hinv := ih hbefore (htimely.of_prefix (List.prefix_append acts [a]))
      have hlast : (acts ++ [a]).foldl (step svc) (State.new s now) =
          step svc (acts.foldl (step svc) (State.new s now)) a := List.foldl_append
      constructor
      · intro e he
        rw [hlast] at he
        rcases entry_step ha he with ⟨he, hne⟩ | ⟨i, q, rfl, hi, hsig⟩
        · exact (hinv.entry e he).snoc hne
        · have hfresh := (hinv.readers i q _ hi).fresh (htimely acts i (List.prefix_refl _))
          rw [hsig]
          exact hfresh.snoc fun h => (by cases h)
      · intro i q b hi
        rw [hlast] at hi
        rcases computed_step ha hi with ⟨hi, hne⟩ | ⟨rfl, hwriting, hb⟩
        · exact (hinv.readers i q b hi).snoc hne
        · refine ⟨acts, [], rfl, ?_, hwriting, hb⟩
          have hself : (Action.compute i : Action S Q).isCompute i = true := decide_eq_true rfl
          rw [sinceCompute_snoc, hself]
          rfl

theorem fresh_of_timely {s : S} {now : Int} (hrun : Along (step svc) Enabled (State.new s now) acts)
    (htimely : Timely acts) (hfound : (acts.foldl (step svc) (State.new s now)).lookup svc q = some b) :
    Fresh svc (State.new s now) acts (svc.sig q) b := by
  obtain ⟨e, he, hsig, _, rfl⟩ := State.lookup_eq_some_iff.mp hfound
  rw [← hsig]
  exact (inv_of_timely hrun htimely).entry e he

def State.side (st : State S Q T B) : S × Bool × Bool := (st.store, st.writing, st.dirty)

theorem side_check (st : State S Q T B) (i : Nat) (q : Q) : (step svc st (.check i q)).side = st.side := by
  unfold step
  dsimp only
  split <;> rfl

theorem side_compute (st : State S Q T B) (i : Nat) : (step svc st (.compute i)).side = st.side := by
  unfold step
  dsimp only
  split <;> rfl

theorem side_publish (st : State S Q T B) (i : Nat) : (step svc st (.publish i)).side = st.side := by
  unfold step
  dsimp only
  split <;> rfl

omit [DecidableEq T] in
theorem State.side_eq {st st' : State S Q T B} (h : st.side = st'.side) :
    st.store = st'.store ∧ st.writing = st'.writing ∧ st.dirty = st'.dirty := by
  obtain ⟨hstore, h⟩ := Prod.mk.inj h
  exact ⟨hstore, Prod.mk.inj h⟩

theorem clean_step {st : State S Q T B} (hst : st.writing = false → st.dirty = false) (ha : Enabled st a) :
    (step svc st a).writing = false → (step svc st a).dirty = false := by
  have hkeep : (step svc st a).side = st.side → (step svc st a).writing = false → (step svc st a).dirty = false := by
    intro hside
    rw [(State.side_eq hside).2.1, (State.side_eq hside).2.2]
    exact hst
  cases a with
  | lock =>
      intro hwriting
      cases hwriting
  | change =>
      intro hwriting
      exact absurd (ha.symm.trans hwriting) (by decide)
  | invalidate => exact fun _ => rfl
  | unlock => exact fun _ => ha.2
  | tick => exact hst
  | check i q => exact hkeep (side_check st i q)
  | compute i => exact hkeep (side_compute st i)
  | publish i => exact hkeep (side_publish st i)

theorem clean_of_run {s : S} {now : Int} (hrun : Along (step svc) Enabled (State.new s now) acts) :
    (acts.foldl (step svc) (State.new s now)).writing = false →
      (acts.foldl (step svc) (State.new s now)).dirty = false :=
  hrun.foldl_invariant (I := fun st => st.writing = false → st.dirty = false) (fun _ => rfl)
    fun _ _ hst ha => clean_step hst ha

theorem store_since {st : State S Q T B} (hsince : .invalidate ∉ acts) :
    (acts.foldl (step svc) st).dirty = true ∨ (acts.foldl (step svc) st).store = st.store := by
  refine foldl_invariant (I := fun t : State S Q T B => t.dirty = true ∨ t.store = st.store) (.inr rfl) ?_
  intro t a ha ht
  have hkeep : (step svc t a).side = t.side → (step svc t a).dirty = true ∨ (step svc t a).store = st.store := by
    intro hside
    rw [(State.side_eq hside).1, (State.side_eq hside).2.2]
    exact ht
  cases a with
  | invalidate => exact absurd ha hsince
  | change => exact .inl rfl
  | lock | unlock | tick => exact ht
  | check i q => exact hkeep (side_check t i q)
  | compute i => exact hkeep (side_compute t i)
  | publish i => exact hkeep (side_publish t i)

theorem Fresh.current {s : S} {now : Int} {sig : T} (h : Fresh svc (State.new s now) acts sig b)
    (hrun : Along (step svc) Enabled (State.new s now) acts)
    (hwriting : (acts.foldl (step svc) (State.new s now)).writing = false) :
    ∃ q at', svc.sig q = sig ∧ b = svc.compute (acts.foldl (step svc) (State.new s now)).store at' q := by
  obtain ⟨done, since, q, rfl, hsince, hsig, _, hb⟩ := h
  have hclean := clean_of_run hrun hwriting
  rw [List.foldl_append] at hclean ⊢
  have hkept : (since.foldl (step svc) (done.foldl (step svc) (State.new s now))).dirty = true ∨
      (since.foldl (step svc) (done.foldl (step svc) (State.new s now))).store =
        (done.foldl (step svc) (State.new s now)).store := store_since hsince
  rcases hkept with hdirty | hstore
  · exact absurd (hclean.symm.trans hdirty) (by decide)
  · exact ⟨q, _, hsig, by rw [hstore]; exact hb⟩

end MeshcoreAnalyzer.ReadThrough
