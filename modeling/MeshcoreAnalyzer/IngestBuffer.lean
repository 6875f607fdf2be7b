import MeshcoreAnalyzer.Runs

namespace MeshcoreAnalyzer.Buffering

open Runs

variable {J : Type}

/-- Where the goroutine of `Start` is. -/
inductive Consumer (J : Type)
  | notStarted
  | waiting
  | selecting
  | running (job : J)
  | draining
  | drainRunning (job : J)
  | returned

structure IngestBuffer (J : Type) where
  cap : Nat
  jobs : List J
  ready : Bool
  stop : Bool
  consumer : Consumer J
  dropped : Nat

def newIngestBuffer (capacity : Int) : IngestBuffer J where
  cap := if capacity < 1 then 1 else capacity.toNat
  jobs := []
  ready := false
  stop := false
  consumer := .notStarted
  dropped := 0

/-- A call of `Submit` that finds the channel full counts the drop in a second step. -/
inductive Action (J : Type)
  | submit (job : J)
  | countDrop
  | start
  | ready
  | stop
  | takeReady
  | takeStop
  | receive
  | finish
  | leave

/-- The calls of `Submit` so far, with what the channel did, the jobs that have begun and
ended, and, of the first call of `Stop`, whether it came after `Ready` and which jobs had
been accepted. -/
structure State (J : Type) where
  buffer : IngestBuffer J
  submitted : List (J × Bool)
  dropping : Nat
  begun : List J
  finished : List J
  atStop : Option (Bool × List J)

def State.new (capacity : Int) : State J where
  buffer := newIngestBuffer capacity
  submitted := []
  dropping := 0
  begun := []
  finished := []
  atStop := none

def State.accepted (s : State J) : List J := (s.submitted.filter Prod.snd).map Prod.fst

def State.refused (s : State J) : List J := (s.submitted.filter fun p => !p.2).map Prod.fst

def Consumer.current : Consumer J → List J
  | .running job | .drainRunning job => [job]
  | _ => []

def Consumer.done : Consumer J → Bool
  | .returned => true
  | _ => false

def submit (s : State J) (job : J) : State J :=
  if s.buffer.jobs.length < s.buffer.cap then
    { s with
      buffer := { s.buffer with jobs := s.buffer.jobs ++ [job] }
      submitted := s.submitted ++ [(job, true)] }
  else { s with submitted := s.submitted ++ [(job, false)], dropping := s.dropping + 1 }

def State.goTo (s : State J) (c : Consumer J) : State J := { s with buffer := { s.buffer with consumer := c } }

def State.begin (s : State J) (job : J) (rest : List J) (c : Consumer J) : State J :=
  { s with buffer := { s.buffer with jobs := rest, consumer := c }, begun := s.begun ++ [job] }

def State.end (s : State J) (job : J) (c : Consumer J) : State J :=
  { s.goTo c with finished := s.finished ++ [job] }

def receive (s : State J) : State J :=
  match s.buffer.consumer, s.buffer.jobs with
  | .selecting, job :: rest => s.begin job rest (.running job)
  | .draining, job :: rest => s.begin job rest (.drainRunning job)
  | _, _ => s

def finish (s : State J) : State J :=
  match s.buffer.consumer with
  | .running job => s.end job .selecting
  | .drainRunning job => s.end job .draining
  | _ => s

def takeStop (s : State J) : State J :=
  match s.buffer.consumer with
  | .waiting => s.goTo .returned
  | .selecting => s.goTo .draining
  | _ => s

def step (s : State J) : Action J → State J
  | .submit job => submit s job
  | .countDrop =>
      { s with buffer := { s.buffer with dropped := s.buffer.dropped + 1 }, dropping := s.dropping - 1 }
  | .start =>
      match s.buffer.consumer with
      | .notStarted => s.goTo .waiting
      | _ => s
  | .ready => { s with buffer := { s.buffer with ready := true } }
  | .stop =>
      { s with
        buffer := { s.buffer with stop := true }
        atStop := s.atStop.or (some (s.buffer.ready, s.accepted)) }
  | .takeReady => s.goTo .selecting
  | .takeStop => takeStop s
  | .receive => receive s
  | .finish => finish s
  | .leave => s.goTo .returned

/-- What can happen next; where a select has several cases that can go on, each of them can. -/
def Enabled (s : State J) : Action J → Prop
  | .submit _ | .start | .ready | .stop => True
  | .countDrop => 0 < s.dropping
  | .takeReady => s.buffer.consumer = .waiting ∧ s.buffer.ready = true
  | .takeStop =>
      (s.buffer.consumer = .waiting ∨ s.buffer.consumer = .selecting) ∧ s.buffer.stop = true
  | .receive =>
      (s.buffer.consumer = .selecting ∨ s.buffer.consumer = .draining) ∧ s.buffer.jobs ≠ []
  | .finish => s.buffer.consumer.current ≠ []
  | .leave => s.buffer.consumer = .draining ∧ s.buffer.jobs = []

/-- The first select does not stop when it could go on as well. -/
def Patient (s : State J) : Action J → Prop
  | .takeStop => s.buffer.consumer = .waiting → s.buffer.ready = false
  | _ => True

def Fresh (s : State J) : Prop := ∃ capacity, s = State.new capacity

def State.queued (s : State J) : List J := if s.buffer.consumer.done then [] else s.buffer.jobs

def State.discarded (s : State J) : List J := if s.buffer.consumer.done then s.buffer.jobs else []

/-- Each submitted job was taken or dropped; those taken have begun, in their order, or
are in the channel, and no two run at one time. -/
structure Accounted (s : State J) : Prop where
  inOrder : s.begun ++ s.queued ++ s.discarded = s.accepted
  serial : s.finished ++ s.buffer.consumer.current = s.begun
  counted : s.buffer.dropped + s.dropping = s.refused.length
  afterReady : s.begun ≠ [] → s.buffer.ready = true
  whenFull : ∀ job, (step s (.submit job)).refused ≠ s.refused → s.buffer.jobs.length = s.buffer.cap

/-- After a stop that came after `Ready`, all that was accepted before it has been run
when the consumer is done. -/
def Drained (s : State J) : Prop :=
  ∀ jobs, s.atStop = some (true, jobs) → s.buffer.consumer.done = true → jobs <+: s.finished

def Consumer.inLoop : Consumer J → Bool
  | .selecting | .running _ | .draining | .drainRunning _ => true
  | _ => false

def Consumer.stopping : Consumer J → Bool
  | .draining | .drainRunning _ | .returned => true
  | _ => false

structure Inv (s : State J) : Prop where
  inOrder : s.begun ++ s.buffer.jobs = s.accepted
  serial : s.finished ++ s.buffer.consumer.current = s.begun
  counted : s.buffer.dropped + s.dropping = s.refused.length
  bounded : s.buffer.jobs.length ≤ s.buffer.cap
  afterReady : s.begun ≠ [] → s.buffer.ready = true
  loopReady : s.buffer.consumer.inLoop = true → s.buffer.ready = true
  stopped : s.buffer.stop = true → s.atStop ≠ none
  gone : s.buffer.consumer.stopping = true → s.atStop ≠ none
  readyFirst : ∀ jobs, s.atStop = some (true, jobs) → s.buffer.ready = true
  before : ∀ b jobs, s.atStop = some (b, jobs) → jobs <+: s.accepted

theorem accepted_submit (s : State J) (job : J) (b : Bool) :
    ({ s with submitted := s.submitted ++ [(job, b)] } : State J).accepted =
      s.accepted ++ if b then [job] else [] := by
  cases b <;> simp [State.accepted]

theorem refused_submit (s : State J) (job : J) (b : Bool) :
    ({ s with submitted := s.submitted ++ [(job, b)] } : State J).refused =
      s.refused ++ if b then [] else [job] := by
  cases b <;> simp [State.refused]

theorem refused_step_submit (s : State J) (job : J) :
    (step s (.submit job)).refused = s.refused ++ if s.buffer.jobs.length < s.buffer.cap then [] else [job] := by
  rw [step, submit]
  split
  · exact refused_submit s job true
  · exact refused_submit s job false

theorem inv_new (capacity : Int) : Inv (State.new capacity : State J) where
  inOrder := rfl
  serial := rfl
  counted := rfl
  bounded := Nat.zero_le _
  afterReady h := absurd rfl h
  loopReady h := absurd h Bool.false_ne_true
  stopped h := absurd h Bool.false_ne_true
  gone h := absurd h Bool.false_ne_true
  readyFirst _ h := absurd h (by simp [State.new])
  before _ _ h := absurd h (by simp [State.new])

theorem Inv.accounted {s : State J} (h : Inv s) : Accounted s where
  inOrder := by
    rw [← h.inOrder, State.queued, State.discarded]
    cases s.buffer.consumer.done <;> simp
  serial := h.serial
  counted := h.counted
  afterReady := h.afterReady
  whenFull job hrefused := by
    rw [refused_step_submit] at hrefused
    have hfull : ¬ s.buffer.jobs.length < s.buffer.cap := fun hlt => hrefused (by rw [if_pos hlt, List.append_nil])
    exact Nat.le_antisymm h.bounded (Nat.not_lt.mp hfull)

theorem Inv.submit {s : State J} (h : Inv s) (job : J) : Inv (submit s job) := by
  rw [Buffering.submit]
  split
  · next hroom =>
    have haccepted := accepted_submit s job true
    exact { h with
      inOrder := by
        rw [← List.append_assoc, h.inOrder]
        exact haccepted.symm
      counted := by
        rw [h.counted]
        simp [State.refused]
      bounded := by
        rw [List.length_append]
        exact hroom
      before := fun b jobs hstop => (h.before b jobs hstop).trans ⟨_, haccepted.symm⟩ }
  · exact { h with
      inOrder := by
        rw [h.inOrder]
        simp [State.accepted]
      counted := by
        calc s.buffer.dropped + (s.dropping + 1) = s.refused.length + 1 := by rw [← h.counted, Nat.add_assoc]
          _ = (s.refused ++ [job]).length := by rw [List.length_append, List.length_singleton]
          _ = _ := (congrArg List.length (refused_submit s job false)).symm
      before := fun b jobs hstop => (h.before b jobs hstop).trans (by simp [State.accepted]) }

theorem Inv.goTo {s : State J} (h : Inv s) {c : Consumer J} (hcurrent : c.current = s.buffer.consumer.current)
    (hloop : c.inLoop = true → s.buffer.ready = true) (hgone : c.stopping = true → s.atStop ≠ none) :
    Inv (s.goTo c) :=
  { h with
    serial := by
      change s.finished ++ c.current = s.begun
      rw [hcurrent]
      exact h.serial
    loopReady := hloop
    gone := hgone }

theorem Inv.begin {s : State J} (h : Inv s) {job : J} {rest : List J} {c : Consumer J}
    (hjobs : s.buffer.jobs = job :: rest) (hidle : s.buffer.consumer.current = []) (hc : c.current = [job])
    (hready : s.buffer.ready = true) (hgone : c.stopping = true → s.atStop ≠ none) : Inv (s.begin job rest c) :=
  { h with
    inOrder := by
      rw [State.begin, List.append_assoc, List.singleton_append, ← hjobs]
      exact h.inOrder
    serial := by
      change s.finished ++ c.current = s.begun ++ [job]
      rw [hc, ← h.serial, hidle, List.append_nil]
    bounded := by
      have hbound := h.bounded
      rw [hjobs, List.length_cons] at hbound
      exact Nat.le_of_succ_le hbound
    afterReady := fun _ => hready
    loopReady := fun _ => hready
    gone := hgone }

theorem Inv.end {s : State J} (h : Inv s) {job : J} {c : Consumer J} (hcurrent : s.buffer.consumer.current = [job])
    (hc : c.current = []) (hready : s.buffer.ready = true) (hgone : c.stopping = true → s.atStop ≠ none) : Inv (s.end job c) :=
  { h with
    serial := by
      change s.finished ++ [job] ++ c.current = s.begun
      rw [hc, List.append_nil, ← hcurrent]
      exact h.serial
    loopReady := fun _ => hready
    gone := hgone }

theorem Inv.countDrop {s : State J} (h : Inv s) (hdropping : 0 < s.dropping) : Inv (step s .countDrop) :=
  { h with
    counted := by
      have hcounted := h.counted
      change s.buffer.dropped + 1 + (s.dropping - 1) = s.refused.length
      omega }

theorem Inv.stop {s : State J} (h : Inv s) : Inv (step s .stop) := by
  have hsome : s.atStop.or (some (s.buffer.ready, s.accepted)) ≠ none := by
    cases s.atStop <;> exact Option.some_ne_none _
  have hfirst : ∀ b jobs, s.atStop.or (some (s.buffer.ready, s.accepted)) = some (b, jobs) →
      s.atStop = some (b, jobs) ∨ (s.buffer.ready, s.accepted) = (b, jobs) := by
    intro b jobs hstop
    cases hatStop : s.atStop with
    | none =>
        rw [hatStop] at hstop
        exact .inr (Option.some.inj hstop)
    | some p =>
        rw [hatStop] at hstop
        exact .inl hstop
  exact { h with
    stopped := fun _ => hsome
    gone := fun _ => hsome
    readyFirst := by
      intro jobs hstop
      rcases hfirst true jobs hstop with hold | hnew
      · exact h.readyFirst jobs hold
      · exact congrArg Prod.fst hnew
    before := by
      intro b jobs hstop
      rcases hfirst b jobs hstop with hold | hnew
      · exact h.before b jobs hold
      · obtain ⟨-, rfl⟩ := Prod.mk.inj hnew
        exact List.prefix_refl s.accepted }

theorem Inv.receive {s : State J} (h : Inv s) : Inv (receive s) := by
  rw [Buffering.receive.eq_def]
  split
  · next job rest hconsumer hjobs =>
    exact h.begin hjobs (by rw [hconsumer]; rfl) rfl (h.loopReady (by rw [hconsumer]; rfl)) fun hgone => by cases hgone
  · next job rest hconsumer hjobs =>
    exact h.begin hjobs (by rw [hconsumer]; rfl) rfl (h.loopReady (by rw [hconsumer]; rfl))
      fun _ => h.gone (by rw [hconsumer]; rfl)
  · exact h

theorem Inv.finish {s : State J} (h : Inv s) : Inv (finish s) := by
  rw [Buffering.finish]
  split
  · next job hconsumer =>
    exact h.end (by rw [hconsumer]; rfl) rfl (h.loopReady (by rw [hconsumer]; rfl)) fun hgone => by cases hgone
  · next job hconsumer =>
    exact h.end (by rw [hconsumer]; rfl) rfl (h.loopReady (by rw [hconsumer]; rfl))
      fun _ => h.gone (by rw [hconsumer]; rfl)
  · exact h

theorem Inv.takeStop {s : State J} (h : Inv s) (hstop : s.buffer.stop = true) : Inv (takeStop s) := by
  rw [Buffering.takeStop]
  split
  · next hconsumer => exact h.goTo (by rw [hconsumer]; rfl) (fun hloop => by cases hloop) fun _ => h.stopped hstop
  · next hconsumer =>
    exact h.goTo (by rw [hconsumer]; rfl) (fun _ => h.loopReady (by rw [hconsumer]; rfl)) fun _ => h.stopped hstop
  · exact h

theorem Inv.step {s : State J} (h : Inv s) {a : Action J} (ha : Enabled s a) : Inv (step s a) := by
  cases a with
  | submit job => exact h.submit job
  | countDrop => exact h.countDrop ha
  | start =>
      rw [Buffering.step]
      split
      · next hconsumer => exact h.goTo (by rw [hconsumer]; rfl) (fun hloop => by cases hloop) fun hdone => by cases hdone
      · exact h
  | ready =>
      exact { h with
        afterReady := fun _ => rfl
        loopReady := fun _ => rfl
        readyFirst := fun _ _ => rfl }
  | stop => exact h.stop
  | takeReady => exact h.goTo (by rw [ha.1]; rfl) (fun _ => ha.2) fun hdone => by cases hdone
  | takeStop => exact h.takeStop ha.2
  | receive => exact h.receive
  | finish => exact h.finish
  | leave =>
      exact h.goTo (by rw [ha.1]; rfl) (fun hloop => by cases hloop) fun _ => h.gone (by rw [ha.1]; rfl)

theorem Drained.of_notDone {s : State J} (h : s.buffer.consumer.done = false) : Drained s :=
  fun _ _ hdone => absurd (h.symm.trans hdone) Bool.false_ne_true

theorem done_receive (s : State J) : (receive s).buffer.consumer.done = s.buffer.consumer.done := by
  rw [receive.eq_def]
  split
  · next hconsumer _ => rw [hconsumer]; rfl
  · next hconsumer _ => rw [hconsumer]; rfl
  · rfl

theorem done_finish (s : State J) : (finish s).buffer.consumer.done = s.buffer.consumer.done := by
  rw [finish]
  split
  · next hconsumer => rw [hconsumer]; rfl
  · next hconsumer => rw [hconsumer]; rfl
  · rfl

theorem Drained.step {s : State J} (h : Drained s) (hs : Inv s) {a : Action J} (ha : Enabled s a)
    (hpatient : Patient s a) : Drained (step s a) := by
  cases a with
  | submit job =>
      rw [Buffering.step, submit]
      split <;> exact h
  | countDrop => exact h
  | start =>
      rw [Buffering.step]
      split
      · exact .of_notDone rfl
      · exact h
  | ready => exact h
  | stop =>
      intro jobs hstop hdone
      have hgone : s.atStop ≠ none := by
        apply hs.gone
        cases hconsumer : s.buffer.consumer <;> simp_all [Buffering.step, Consumer.done, Consumer.stopping]
      obtain ⟨p, hp⟩ := Option.ne_none_iff_exists'.mp hgone
      apply h jobs _ hdone
      simpa [Buffering.step, hp] using hstop
  | takeReady => exact .of_notDone rfl
  | takeStop =>
      rcases ha.1 with hconsumer | hconsumer
      · intro jobs hstop _
        rw [Buffering.step, takeStop, hconsumer] at hstop
        exact absurd ((hpatient hconsumer).symm.trans (hs.readyFirst jobs hstop)) Bool.false_ne_true
      · rw [Buffering.step, takeStop, hconsumer]
        exact .of_notDone rfl
  | receive =>
      rcases ha.1 with hconsumer | hconsumer
      · exact .of_notDone (by rw [Buffering.step, done_receive, hconsumer]; rfl)
      · exact .of_notDone (by rw [Buffering.step, done_receive, hconsumer]; rfl)
  | finish =>
      apply Drained.of_notDone
      rw [Buffering.step, done_finish]
      cases hconsumer : s.buffer.consumer with
      | returned =>
          rw [Enabled, hconsumer] at ha
          exact absurd rfl ha
      | notStarted | waiting | selecting | running job | draining | drainRunning job => rfl
  | leave =>
      intro jobs hstop _
      have hrun : s.finished = s.accepted := by
        have hserial := hs.serial
        rw [ha.1, show (Consumer.draining : Consumer J).current = [] from rfl, List.append_nil] at hserial
        rw [hserial, ← hs.inOrder, ha.2, List.append_nil]
      exact hrun ▸ hs.before true jobs hstop

theorem inv_of_reach {s : State J} (h : Reach step Enabled Fresh s) : Inv s := by
  apply h.invariant
  · rintro s ⟨capacity, rfl⟩
    exact inv_new capacity
  · exact fun s a hs ha => hs.step ha

theorem accounted_of_reach {s : State J} (h : Reach step Enabled Fresh s) : Accounted s :=
  (inv_of_reach h).accounted

/-- Each job is accounted for in every run, and in a run whose first select does not stop
while it could go on, a stop after `Ready` leaves none of the accepted jobs. -/
theorem accounted_of_patient {s : State J} (h : Reach step (fun s a => Enabled s a ∧ Patient s a) Fresh s) :
    Accounted s ∧ Drained s := by
  have hboth : Inv s ∧ Drained s := by
    apply h.invariant
    · rintro s ⟨capacity, rfl⟩
      exact ⟨inv_new capacity, .of_notDone rfl⟩
    · exact fun s a hs ha => ⟨hs.1.step ha.1, hs.2.step hs.1 ha.1 ha.2⟩
  exact ⟨hboth.1.accounted, hboth.2⟩

def drainedRun : List (Action Nat) :=
  [.start, .submit 7, .submit 8, .submit 9, .countDrop, .ready, .takeReady, .receive, .stop, .finish, .takeStop,
    .receive, .finish, .leave]

theorem accounted_of_patient_drainedRun :
    (Accounted (drainedRun.foldl step (State.new 2)) ∧ Drained (drainedRun.foldl step (State.new 2))) ∧
      (drainedRun.foldl step (State.new 2)).finished = [7, 8] ∧
      (drainedRun.foldl step (State.new 2)).buffer.dropped = 1 := by
  refine ⟨accounted_of_patient (Reach.of_along (.start ⟨2, rfl⟩) ?_), rfl, rfl⟩
  refine ⟨⟨trivial, trivial⟩, ⟨trivial, trivial⟩, ⟨trivial, trivial⟩, ⟨trivial, trivial⟩, ⟨Nat.one_pos, trivial⟩,
    ⟨trivial, trivial⟩, ⟨⟨rfl, rfl⟩, trivial⟩, ⟨⟨.inl rfl, List.cons_ne_nil _ _⟩, trivial⟩, ⟨trivial, trivial⟩,
    ⟨List.cons_ne_nil _ _, trivial⟩, ⟨⟨.inr rfl, rfl⟩, fun h => by cases h⟩,
    ⟨⟨.inr rfl, List.cons_ne_nil _ _⟩, trivial⟩, ⟨List.cons_ne_nil _ _, trivial⟩, ⟨⟨rfl, rfl⟩, trivial⟩, trivial⟩

def stoppedRun : List (Action Nat) := [.submit 7, .ready, .stop, .start, .takeStop]

theorem stoppedRun_discards :
    Reach step Enabled Fresh (stoppedRun.foldl step (State.new 1)) ∧ ¬ Drained (stoppedRun.foldl step (State.new 1)) := by
  constructor
  · apply Reach.of_along (.start ⟨1, rfl⟩)
    exact ⟨trivial, trivial, trivial, trivial, ⟨.inl rfl, rfl⟩, trivial⟩
  · intro h
    exact absurd (h [7] rfl rfl) (by decide)

end MeshcoreAnalyzer.Buffering
