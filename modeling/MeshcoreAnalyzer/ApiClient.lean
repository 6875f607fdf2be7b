import MeshcoreAnalyzer.Runs
import Mathlib.Logic.Function.Basic

namespace MeshcoreAnalyzer.ApiClient

open Runs

/-! `api` of public/app.js: answers that are kept for a while, requests that are shared while they are under way, and
requests that are repeated while the server warms up. Times are milliseconds. -/

variable {D : Type}

/-- Where a request stands: it waits for a response, for its body or for a timer, or has come to an end, which the
callback of `finally` may not have seen yet. -/
inductive Phase
  | asking
  | reading
  | waiting (ms : Nat)
  | settled
  | forgotten
deriving DecidableEq

structure Fetch where
  path : String
  ttl : Int
  attempt : Nat
  delay : Nat
  notified : Bool
  phase : Phase

structure State (D : Type) where
  apiCache : String → Option (D × Int)
  inflight : String → Option Nat
  fetches : List Fetch
  warmupInflight : Nat

def State.initial : State D := ⟨fun _ => none, fun _ => none, [], 0⟩

def maxAttempts : Nat := 6

inductive Event (D : Type)
  | call (path : String) (ttl : Int) (bust : Bool) (now : Int)
  | respond (i : Nat) (status : Nat) (retryAfter : Option Int)
  | body (i : Nat) (data : D) (now : Int)
  | fail (i : Nat)
  | timer (i : Nat)
  | forget (i : Nat)
  | invalidateApiCache (start : String)

inductive Answer (D : Type)
  | cached (data : D)
  | joined (i : Nat)
  | fetched

def State.answer (s : State D) (path : String) (ttl : Int) (bust : Bool) (now : Int) : Answer D :=
  let other := match s.inflight path with
    | some i => .joined i
    | none => .fetched
  if !bust && 0 < ttl then
    match s.apiCache path with
    | some (data, expires) => if now < expires then .cached data else other
    | none => other
  else other

def State.start (s : State D) (path : String) (ttl : Int) : State D :=
  { s with
    fetches := s.fetches ++ [⟨path, ttl, 0, 1000, false, .asking⟩]
    inflight := Function.update s.inflight path (some s.fetches.length) }

def State.move (s : State D) (i : Nat) (f : Fetch) : State D := { s with fetches := s.fetches.set i f }

/-- The `finally` of the request itself: the banner counts it no more. -/
def State.settle (s : State D) (i : Nat) (f : Fetch) : State D :=
  { s.move i { f with phase := .settled } with
    warmupInflight := if f.notified then s.warmupInflight - 1 else s.warmupInflight }

def isOk (status : Nat) : Bool := 200 ≤ status && status ≤ 299

def wait (f : Fetch) : Option Int → Nat
  | some ra => if 0 < ra then (ra * 1000).toNat else f.delay
  | none => f.delay

def State.respond (s : State D) (i : Nat) (f : Fetch) (status : Nat) (retryAfter : Option Int) : State D :=
  if status = 503 ∧ f.attempt < maxAttempts then
    { s.move i { f with notified := true, phase := .waiting (min (wait f retryAfter) 30000) } with
      warmupInflight := if f.notified then s.warmupInflight else s.warmupInflight + 1 }
  else if isOk status then s.move i { f with phase := .reading }
  else s.settle i f

def State.body (s : State D) (i : Nat) (f : Fetch) (data : D) (now : Int) : State D :=
  let s := s.settle i f
  if 0 < f.ttl then { s with apiCache := Function.update s.apiCache f.path (some (data, now + f.ttl)) } else s

def State.timer (s : State D) (i : Nat) (f : Fetch) : State D :=
  s.move i { f with attempt := f.attempt + 1, delay := min (f.delay * 2) 30000, phase := .asking }

def State.forget (s : State D) (i : Nat) (f : Fetch) : State D :=
  { s.move i { f with phase := .forgotten } with inflight := Function.update s.inflight f.path none }

def Fetch.isWaiting (f : Fetch) : Bool :=
  match f.phase with
  | .waiting _ => true
  | _ => false

def State.on (s : State D) (i : Nat) (ready : Fetch → Bool) (f : Fetch → State D) : State D :=
  match s.fetches[i]? with
  | some fetch => if ready fetch then f fetch else s
  | none => s

def State.step (s : State D) : Event D → State D
  | .call path ttl bust now =>
      match s.answer path ttl bust now with
      | .fetched => s.start path ttl
      | _ => s
  | .respond i status retryAfter => s.on i (·.phase = .asking) fun f => s.respond i f status retryAfter
  | .body i data now => s.on i (·.phase = .reading) fun f => s.body i f data now
  | .fail i => s.on i (fun f => f.phase = .asking || f.phase = .reading) fun f => s.settle i f
  | .timer i => s.on i (·.isWaiting) fun f => s.timer i f
  | .forget i => s.on i (·.phase = .settled) fun f => s.forget i f
  | .invalidateApiCache start =>
      { s with apiCache := fun key => if start.toList.isPrefixOf key.toList then none else s.apiCache key }

def State.run (s : State D) (events : List (Event D)) : State D := events.foldl State.step s

def Fetch.active (f : Fetch) : Bool := f.phase = .asking || f.phase = .reading || f.isWaiting

def Fetch.counted (f : Fetch) : Bool := f.notified && f.active

/-- It has sent as many requests as it may, the next one included where a timer is under way. -/
def Fetch.Bounded (f : Fetch) : Prop := f.attempt ≤ maxAttempts ∧ (f.isWaiting → f.attempt < maxAttempts)

/-- What becomes of the requests: nothing, a new one, one that goes on or ends, one that is forgotten. -/
inductive Change (s s' : State D) : Prop
  | same (hfetches : s'.fetches = s.fetches) (hinflight : s'.inflight = s.inflight)
      (hwarmup : s'.warmupInflight = s.warmupInflight)
  | start (path : String) (ttl : Int) (hfree : s.inflight path = none)
      (hfetches : s'.fetches = (s.start path ttl).fetches) (hinflight : s'.inflight = (s.start path ttl).inflight)
      (hwarmup : s'.warmupInflight = s.warmupInflight)
  | move (i : Nat) (f f' : Fetch) (hf : s.fetches[i]? = some f) (hpath : f'.path = f.path)
      (hphase : f.phase ≠ .forgotten) (hphase' : f'.phase ≠ .forgotten) (hbounded : f.Bounded → f'.Bounded)
      (hfetches : s'.fetches = s.fetches.set i f') (hinflight : s'.inflight = s.inflight)
      (hwarmup : (f.counted → 0 < s.warmupInflight) →
        s'.warmupInflight + f.counted.toNat = s.warmupInflight + f'.counted.toNat)
  | forget (i : Nat) (f : Fetch) (hf : s.fetches[i]? = some f) (hphase : f.phase = .settled)
      (hfetches : s'.fetches = (s.forget i f).fetches) (hinflight : s'.inflight = (s.forget i f).inflight)
      (hwarmup : s'.warmupInflight = s.warmupInflight)

theorem on_cases {s : State D} {i : Nat} {ready : Fetch → Bool} {g : Fetch → State D} :
    s.on i ready g = s ∨ ∃ f, s.fetches[i]? = some f ∧ ready f ∧ s.on i ready g = g f := by
  rw [State.on]
  cases hf : s.fetches[i]? with
  | none => exact .inl rfl
  | some f =>
      by_cases hready : ready f
      · exact .inr ⟨f, rfl, hready, if_pos hready⟩
      · exact .inl (if_neg hready)

theorem Change.refl (s : State D) : Change s s := .same rfl rfl rfl

theorem Change.cache {s s' : State D} (h : Change s s') (apiCache : String → Option (D × Int)) :
    Change s { s' with apiCache := apiCache } := by
  cases h with
  | same hfetches hinflight hwarmup => exact .same hfetches hinflight hwarmup
  | start path ttl hfree hfetches hinflight hwarmup => exact .start path ttl hfree hfetches hinflight hwarmup
  | move i f f' hf hpath hphase hphase' hbounded hfetches hinflight hwarmup =>
      exact .move i f f' hf hpath hphase hphase' hbounded hfetches hinflight hwarmup
  | forget i f hf hphase hfetches hinflight hwarmup => exact .forget i f hf hphase hfetches hinflight hwarmup

theorem change_settle {s : State D} {i : Nat} {f : Fetch} (hf : s.fetches[i]? = some f) (hactive : f.active) :
    Change s (s.settle i f) := by
  have hphase : f.phase ≠ .forgotten := by
    intro h
    simp [Fetch.active, Fetch.isWaiting, h] at hactive
  refine .move i f { f with phase := .settled } hf rfl hphase (by simp) ?_ rfl rfl ?_
  · exact fun h => ⟨h.1, by simp [Fetch.isWaiting]⟩
  · intro hpos
    have hsettled : ({ f with phase := .settled } : Fetch).counted = false := by
      simp [Fetch.counted, Fetch.active, Fetch.isWaiting]
    rw [hsettled]
    by_cases hn : f.notified
    · have hcounted : f.counted = true := by simp [Fetch.counted, hn, hactive]
      have hpos := hpos hcounted
      simp only [State.settle, hcounted, hn, if_true, Bool.toNat_true, Bool.toNat_false]
      omega
    · simp [State.settle, State.move, Fetch.counted, hn]

theorem change_respond {s : State D} {i : Nat} {f : Fetch} (hf : s.fetches[i]? = some f) (hphase : f.phase = .asking)
    (status : Nat) (retryAfter : Option Int) : Change s (s.respond i f status retryAfter) := by
  have hactive : f.active := by simp [Fetch.active, hphase]
  rw [State.respond]
  split
  · next hagain =>
      refine .move i f { f with notified := true, phase := .waiting (min (wait f retryAfter) 30000) } hf rfl
        (by simp [hphase]) (by simp) (fun h => ⟨h.1, fun _ => hagain.2⟩) rfl rfl ?_
      intro _
      by_cases hn : f.notified <;>
        simp [Fetch.counted, Fetch.active, Fetch.isWaiting, hn, hphase]
  · split
    · refine .move i f { f with phase := .reading } hf rfl (by simp [hphase]) (by simp) ?_ rfl rfl fun _ => ?_
      · exact fun h => ⟨h.1, by simp [Fetch.isWaiting]⟩
      · simp [State.move, Fetch.counted, Fetch.active, hphase]
    · exact change_settle hf hactive

theorem change_timer {s : State D} {i : Nat} {f : Fetch} (hf : s.fetches[i]? = some f) (hready : f.isWaiting) :
    Change s (s.timer i f) := by
  have hphase : f.phase ≠ .forgotten := by
    intro h
    simp [Fetch.isWaiting, h] at hready
  refine .move i f { f with attempt := f.attempt + 1, delay := min (f.delay * 2) 30000, phase := .asking } hf rfl hphase
    (by simp) (fun h => ⟨h.2 hready, by simp [Fetch.isWaiting]⟩) rfl rfl fun _ => ?_
  simp [State.timer, State.move, Fetch.counted, Fetch.active, hready]

theorem change_step (s : State D) (e : Event D) : Change s (s.step e) := by
  cases e with
  | call path ttl bust now =>
      have hfree : s.answer path ttl bust now = .fetched → s.inflight path = none := by
        intro h
        cases hinflight : s.inflight path with
        | none => rfl
        | some i =>
            simp only [State.answer, hinflight] at h
            grind
      rw [State.step]
      cases hanswer : s.answer path ttl bust now with
      | fetched => exact .start path ttl (hfree hanswer) rfl rfl rfl
      | cached data => exact .refl s
      | joined i => exact .refl s
  | respond i status retryAfter =>
      rcases on_cases (s := s) (i := i) with h | ⟨f, hf, hready, h⟩ <;> rw [State.step, h]
      · exact .refl s
      · exact change_respond hf (of_decide_eq_true hready) status retryAfter
  | body i data now =>
      rcases on_cases (s := s) (i := i) with h | ⟨f, hf, hready, h⟩ <;> rw [State.step, h]
      · exact .refl s
      · have hphase : f.phase = .reading := of_decide_eq_true hready
        have hsettle := change_settle hf (by simp [Fetch.active, hphase])
        rw [State.body]
        split
        · exact hsettle.cache _
        · exact hsettle
  | fail i =>
      rcases on_cases (s := s) (i := i) with h | ⟨f, hf, hready, h⟩ <;> rw [State.step, h]
      · exact .refl s
      · exact change_settle hf (by rw [Fetch.active, hready, Bool.true_or])
  | timer i =>
      rcases on_cases (s := s) (i := i) with h | ⟨f, hf, hready, h⟩ <;> rw [State.step, h]
      · exact .refl s
      · exact change_timer hf hready
  | forget i =>
      rcases on_cases (s := s) (i := i) with h | ⟨f, hf, hready, h⟩ <;> rw [State.step, h]
      · exact .refl s
      · exact .forget i f hf (of_decide_eq_true hready) rfl rfl rfl
  | invalidateApiCache start => exact .same rfl rfl rfl

/-- The banner counts the requests that wait for the server, a path has one request under way at most, which is the one
that others join, and none is sent more than seven times. -/
structure Consistent (s : State D) : Prop where
  banner : s.warmupInflight = s.fetches.countP Fetch.counted
  shared : ∀ path i, s.inflight path = some i ↔ ∃ f, s.fetches[i]? = some f ∧ f.path = path ∧ f.phase ≠ .forgotten
  bounded : ∀ f ∈ s.fetches, f.Bounded

theorem consistent_initial : Consistent (State.initial : State D) :=
  ⟨rfl, by simp [State.initial], by simp [State.initial]⟩

theorem countP_set {A : Type} (p : A → Bool) {l : List A} {i : Nat} {a : A} (h : l[i]? = some a) (b : A) :
    (l.set i b).countP p + (p a).toNat = l.countP p + (p b).toNat := by
  induction l generalizing i with
  | nil => simp at h
  | cons c l ih =>
      cases i with
      | zero =>
          obtain rfl : c = a := by simpa using h
          rw [List.set_cons_zero, List.countP_cons, List.countP_cons]
          cases p c <;> cases p b <;> simp
      | succ i =>
          rw [List.getElem?_cons_succ] at h
          have hrest := ih h
          rw [List.set_cons_succ, List.countP_cons, List.countP_cons]
          omega

theorem getElem?_set_of_some {A : Type} {l : List A} {i : Nat} {a : A} (h : l[i]? = some a) (b : A) (j : Nat) :
    (l.set i b)[j]? = if j = i then some b else l[j]? := by
  obtain ⟨hi, -⟩ := List.getElem?_eq_some_iff.mp h
  by_cases hij : i = j
  · subst hij
    simp [hi]
  · simp [hij, Ne.symm hij]

theorem Consistent.positive {s : State D} (h : Consistent s) {i : Nat} {f : Fetch} (hf : s.fetches[i]? = some f)
    (hcounted : f.counted) : 0 < s.warmupInflight := by
  rw [h.banner]
  exact List.countP_pos_iff.mpr ⟨f, List.mem_of_getElem? hf, hcounted⟩

theorem Consistent.start {s s' : State D} (h : Consistent s) {path : String} {ttl : Int}
    (hfree : s.inflight path = none) (hfetches : s'.fetches = (s.start path ttl).fetches)
    (hinflight : s'.inflight = (s.start path ttl).inflight) (hwarmup : s'.warmupInflight = s.warmupInflight) :
    Consistent s' := by
  refine ⟨?_, fun q i => ?_, fun f hf => ?_⟩
  · rw [hwarmup, hfetches, State.start, List.countP_append, ← h.banner]
    simp [Fetch.counted]
  · have hnone : ∀ (j : Nat) (f : Fetch), s.fetches[j]? = some f → f.path = path → f.phase = .forgotten := by
      intro j f hf hp
      by_contra hphase
      have hjoin := (h.shared path j).mpr ⟨f, hf, hp, hphase⟩
      rw [hfree] at hjoin
      cases hjoin
    have hget : ∀ g, s'.fetches[i]? = some g ↔
        s.fetches[i]? = some g ∨ i = s.fetches.length ∧ g = ⟨path, ttl, 0, 1000, false, .asking⟩ := by
      intro g
      rw [hfetches, State.start, List.getElem?_append]
      grind
    rw [hinflight]
    simp only [State.start, Function.update_apply, hget]
    by_cases hq : q = path
    · subst hq
      rw [if_pos rfl]
      constructor
      · rintro ⟨⟩
        exact ⟨_, .inr ⟨rfl, rfl⟩, rfl, by simp⟩
      · rintro ⟨g, hg | ⟨rfl, -⟩, hp, hphase⟩
        · exact absurd (hnone i g hg hp) hphase
        · rfl
    · rw [if_neg hq, h.shared q i]
      constructor
      · rintro ⟨g, hg, hp, hphase⟩
        exact ⟨g, .inl hg, hp, hphase⟩
      · rintro ⟨g, hg | ⟨-, rfl⟩, hp, hphase⟩
        · exact ⟨g, hg, hp, hphase⟩
        · exact absurd hp.symm hq
  · rw [hfetches, State.start, List.mem_append, List.mem_singleton] at hf
    rcases hf with hf | rfl
    · exact h.bounded f hf
    · exact ⟨by simp [maxAttempts], by simp [Fetch.isWaiting]⟩

theorem Consistent.change {s s' : State D} (h : Consistent s) (hchange : Change s s') : Consistent s' := by
  cases hchange with
  | same hfetches hinflight hwarmup =>
      exact ⟨by rw [hwarmup, hfetches, h.banner], by rw [hinflight, hfetches]; exact h.shared, by
        rw [hfetches]; exact h.bounded⟩
  | start path ttl hfree hfetches hinflight hwarmup => exact h.start hfree hfetches hinflight hwarmup
  | move i f f' hf hpath hphase hphase' hbounded hfetches hinflight hwarmup =>
      refine ⟨?_, fun q j => ?_, fun g hg => ?_⟩
      · have hcount := countP_set Fetch.counted hf f'
        have hmoved := hwarmup (h.positive hf)
        rw [← hfetches, ← h.banner] at hcount
        omega
      · have hold := h.shared q j
        rw [hfetches, hinflight, getElem?_set_of_some hf]
        grind
      · rw [hfetches] at hg
        rcases List.mem_or_eq_of_mem_set hg with hg | rfl
        · exact h.bounded g hg
        · exact hbounded (h.bounded f (List.mem_of_getElem? hf))
  | forget i f hf hphase hfetches hinflight hwarmup =>
      have hown : s.inflight f.path = some i := (h.shared f.path i).mpr ⟨f, hf, rfl, by simp [hphase]⟩
      refine ⟨?_, fun q j => ?_, fun g hg => ?_⟩
      · have hcount := countP_set Fetch.counted hf { f with phase := .forgotten }
        have hnot : f.counted = false := by simp [Fetch.counted, Fetch.active, Fetch.isWaiting, hphase]
        have hnot' : ({ f with phase := .forgotten } : Fetch).counted = false := by
          simp [Fetch.counted, Fetch.active, Fetch.isWaiting]
        rw [hnot, hnot', ← h.banner] at hcount
        rw [hwarmup, hfetches, State.forget, State.move]
        simpa using hcount.symm
      · have hold := h.shared q j
        rw [hfetches, hinflight, State.forget, State.move]
        simp only [getElem?_set_of_some hf, Function.update_apply]
        grind
      · rw [hfetches, State.forget, State.move] at hg
        rcases List.mem_or_eq_of_mem_set hg with hg | rfl
        · exact h.bounded g hg
        · have hbounded := h.bounded f (List.mem_of_getElem? hf)
          exact ⟨hbounded.1, by simp [Fetch.isWaiting]⟩

theorem consistent_run (events : List (Event D)) : Consistent ((State.initial : State D).run events) :=
  foldl_invariant consistent_initial fun s e _ h => h.change (change_step s e)

/-- The data are those of a request for the path, which came back within its time to live, and none of the
invalidations since then was for the path. -/
def Fresh (events : List (Event D)) (path : String) (data : D) (now : Int) : Prop :=
  ∃ before i t after f, events = before ++ .body i data t :: after ∧
    ((State.initial : State D).run before).fetches[i]? = some f ∧ f.phase = .reading ∧ f.path = path ∧
    now < t + f.ttl ∧ ∀ start, .invalidateApiCache start ∈ after → ¬ start.toList.isPrefixOf path.toList

theorem apiCache_step {s : State D} {e : Event D} {path : String} {v : D × Int}
    (h : (s.step e).apiCache path = some v) :
    (∃ i t f, e = .body i v.1 t ∧ s.fetches[i]? = some f ∧ f.phase = .reading ∧ f.path = path ∧ v.2 = t + f.ttl) ∨
      s.apiCache path = some v ∧ ∀ start, e = .invalidateApiCache start → ¬ start.toList.isPrefixOf path.toList := by
  cases e with
  | call q ttl bust now =>
      refine .inr ⟨?_, by simp⟩
      rw [State.step] at h
      cases hanswer : s.answer q ttl bust now <;> rw [hanswer] at h <;> exact h
  | respond i status retryAfter =>
      refine .inr ⟨?_, by simp⟩
      rcases on_cases (s := s) (i := i) with heq | ⟨f, -, -, heq⟩ <;> rw [State.step, heq] at h
      · exact h
      · rw [State.respond] at h
        split at h
        · exact h
        · split at h <;> exact h
  | body i data now =>
      rcases on_cases (s := s) (i := i) with heq | ⟨f, hf, hready, heq⟩ <;> rw [State.step, heq] at h
      · exact .inr ⟨h, by simp⟩
      · rw [State.body] at h
        split at h
        · by_cases hpath : path = f.path
          · subst hpath
            obtain rfl : (data, now + f.ttl) = v := by simpa using h
            exact .inl ⟨i, now, f, rfl, hf, of_decide_eq_true hready, rfl, rfl⟩
          · refine .inr ⟨?_, by simp⟩
            simpa [hpath, State.settle, State.move] using h
        · exact .inr ⟨h, by simp⟩
  | fail i =>
      refine .inr ⟨?_, by simp⟩
      rcases on_cases (s := s) (i := i) with heq | ⟨f, -, -, heq⟩ <;> rw [State.step, heq] at h <;> exact h
  | timer i =>
      refine .inr ⟨?_, by simp⟩
      rcases on_cases (s := s) (i := i) with heq | ⟨f, -, -, heq⟩ <;> rw [State.step, heq] at h <;> exact h
  | forget i =>
      refine .inr ⟨?_, by simp⟩
      rcases on_cases (s := s) (i := i) with heq | ⟨f, -, -, heq⟩ <;> rw [State.step, heq] at h <;> exact h
  | invalidateApiCache start =>
      simp only [State.step] at h
      split at h
      · cases h
      · next hstart =>
          refine .inr ⟨h, ?_⟩
          rintro _ ⟨⟩
          exact hstart

theorem fresh_of_apiCache {events : List (Event D)} {path : String} {data : D} {expires now : Int}
    (h : ((State.initial : State D).run events).apiCache path = some (data, expires)) (hnow : now < expires) :
    Fresh events path data now := by
  induction events using List.reverseRecOn with
  | nil => cases h
  | append_singleton events e ih =>
      rw [State.run, List.foldl_concat] at h
      rcases apiCache_step h with ⟨i, t, f, rfl, hf, hphase, hpath, rfl⟩ | ⟨h, hstart⟩
      · exact ⟨events, i, t, [], f, rfl, hf, hphase, hpath, hnow, by simp⟩
      · obtain ⟨before, i, t, after, f, rfl, hf, hphase, hpath, hlate, hafter⟩ := ih h
        refine ⟨before, i, t, after ++ [e], f, by simp, hf, hphase, hpath, hlate, fun start hmem => ?_⟩
        rcases List.mem_append.mp hmem with hmem | hmem
        · exact hafter start hmem
        · exact hstart start (List.mem_singleton.mp hmem).symm

/-- What the calls come back with. -/
structure Served (events : List (Event D)) : Prop where
  consistent : Consistent ((State.initial : State D).run events)
  cached : ∀ path ttl bust now data,
    ((State.initial : State D).run events).answer path ttl bust now = .cached data →
      bust = false ∧ 0 < ttl ∧ Fresh events path data now
  joined : ∀ path ttl bust now i, ((State.initial : State D).run events).answer path ttl bust now = .joined i →
    ∃ f, ((State.initial : State D).run events).fetches[i]? = some f ∧ f.path = path ∧ f.phase ≠ .forgotten

theorem answer_cached {s : State D} {path : String} {ttl : Int} {bust : Bool} {now : Int} {data : D}
    (h : s.answer path ttl bust now = .cached data) :
    bust = false ∧ 0 < ttl ∧ ∃ expires, s.apiCache path = some (data, expires) ∧ now < expires := by
  simp only [State.answer] at h
  grind

theorem answer_joined {s : State D} {path : String} {ttl : Int} {bust : Bool} {now : Int} {i : Nat}
    (h : s.answer path ttl bust now = .joined i) : s.inflight path = some i := by
  simp only [State.answer] at h
  grind

/-- Calls, responses, bodies, timers and invalidations in any order, from the loading of the page on. -/
theorem requests_served (events : List (Event D)) : Served events where
  consistent := consistent_run events
  cached path ttl bust now data h := by
    obtain ⟨hbust, httl, expires, hcache, hnow⟩ := answer_cached h
    exact ⟨hbust, httl, fresh_of_apiCache hcache hnow⟩
  joined path ttl bust now i h := ((consistent_run events).shared path i).mp (answer_joined h)

end MeshcoreAnalyzer.ApiClient
