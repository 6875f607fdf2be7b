import MeshcoreAnalyzer.LimiterRuns
import MeshcoreAnalyzer.Runs

namespace MeshcoreAnalyzer.Hub

open WSLimits (Server Request)

/-! cmd/server/websocket.go: the connections that the limiter lets in, the hub that messages are broadcast
from, and the two goroutines of each connection. The hub is locked for writing by `Register`, `Unregister` and
`Close`, and for reading by `Broadcast`, which the poller alone calls. -/

variable {M : Type}

/-- `make(chan []byte, 256)` -/
def sendCap : Nat := 256

/-- How far a connection is between `allow` and the call of its release function. -/
inductive Phase
  | upgrading
  | reading
  | leaving
  | gone
deriving DecidableEq

/-- `joined` is how many messages had been broadcast when the client was registered. -/
structure Conn (M : Type) where
  phase : Phase := .upgrading
  registered : Bool := false
  joined : Nat := 0
  send : List M := []
  sendClosed : Bool := false
  writing : Bool := false
  written : List M := []

/-- Connection `i` is the one of the limiter's grant `i`. A broadcast that is under way has clients left to visit. -/
structure State (M : Type) where
  server : Server
  conns : List (Conn M) := []
  inFlight : Option (M × List Nat) := none
  log : List M := []
  panicked : Bool := false

/-- What the goroutines do next. A write to the connection may fail, and a read may at any time. -/
inductive Step (M : Type)
  | serve (r : Request)
  | upgradeFails (i : Nat)
  | register (i : Nat)
  | broadcast (msg : M)
  | send (i : Nat)
  | write (i : Nat) (ok : Bool)
  | pingFails (i : Nat)
  | unregister (i : Nat)
  | release (i : Nat)
  | close

namespace State

def remaining (s : State M) : List Nat := (s.inFlight.map Prod.snd).getD []

def unlocked (s : State M) : Bool := s.inFlight.isNone

def at? (s : State M) (i : Nat) (p : Conn M → Bool) : Bool := (s.conns[i]?).any p

def modify (i : Nat) (f : Conn M → Conn M) (s : State M) : State M := { s with conns := s.conns.modify i f }

/-- The part of `ServeWS` before the upgrade. -/
def serve (r : Request) (now : Int) (s : State M) : State M :=
  { s with
    server := s.server.step (.allow r now)
    conns := if (s.server.limiter.allow r now).2.ok then s.conns ++ [{}] else s.conns }

def upgradeFails (i : Nat) (now : Int) (s : State M) : State M :=
  if s.at? i fun c => c.phase = .upgrading then
    { s with server := s.server.step (.release i now) }.modify i fun c => { c with phase := .gone }
  else s

/-- `Register`, and the start of the two goroutines -/
def register (i : Nat) (s : State M) : State M :=
  if s.unlocked && s.at? i fun c => c.phase = .upgrading then
    s.modify i fun c => { c with phase := .reading, registered := true, joined := s.log.length, writing := true }
  else s

def visit (msg : M) (clients : List Nat) : Option (M × List Nat) := if clients = [] then none else some (msg, clients)

def broadcast (msg : M) (s : State M) : State M :=
  if s.unlocked then
    { s with
      inFlight := visit msg ((List.range s.conns.length).filter fun i => s.at? i Conn.registered)
      log := s.log ++ [msg] }
  else s

/-- `select { case c.send <- data: default: }`; a send on a closed channel panics. -/
def push (msg : M) (c : Conn M) : Conn M := if c.send.length < sendCap then { c with send := c.send ++ [msg] } else c

def send (i : Nat) (s : State M) : State M :=
  match s.inFlight with
  | some (msg, clients) =>
      if i ∈ clients then
        { s with
          inFlight := visit msg (clients.erase i)
          panicked := s.panicked || s.at? i Conn.sendClosed }.modify i (push msg)
      else s
  | none => s

/-- One turn of `writePump`: what is in the channel is received even after it is closed. -/
def writeNext (ok : Bool) (c : Conn M) : Conn M :=
  if c.writing then
    match c.send with
    | msg :: rest => if ok then { c with send := rest, written := c.written ++ [msg] } else { c with send := rest, writing := false }
    | [] => if c.sendClosed then { c with writing := false } else c
  else c

/-- `close(c.send)`, once, for a client that is in the hub -/
def evict (c : Conn M) : Conn M := if c.registered then { c with registered := false, sendClosed := true } else c

/-- The part of `Unregister` under the lock. -/
def unregister (i : Nat) (s : State M) : State M :=
  if s.unlocked && s.at? i fun c => c.phase = .reading then s.modify i fun c => { evict c with phase := .leaving } else s

def release (i : Nat) (now : Int) (s : State M) : State M :=
  if s.at? i fun c => c.phase = .leaving then
    { s with server := s.server.step (.release i now) }.modify i fun c => { c with phase := .gone }
  else s

def close (s : State M) : State M := if s.unlocked then { s with conns := s.conns.map evict } else s

def step (s : State M) : Int × Step M → State M
  | (now, .serve r) => s.serve r now
  | (now, .upgradeFails i) => s.upgradeFails i now
  | (_, .register i) => s.register i
  | (_, .broadcast msg) => s.broadcast msg
  | (_, .send i) => s.send i
  | (_, .write i ok) => s.modify i (writeNext ok)
  | (_, .pingFails i) => s.modify i fun c => { c with writing := false }
  | (_, .unregister i) => s.unregister i
  | (now, .release i) => s.release i now
  | (_, .close) => s.close

def run (s : State M) (steps : List (Int × Step M)) : State M := steps.foldl step s

end State

variable {s : State M} {D : Nat → Nat} {i : Nat} {log due : List M} {d : Nat} {c : Conn M}

def full (i : Nat) (s : State M) : Int × Step M → Bool
  | (_, .send j) => decide (j = i ∧ i ∈ s.remaining) && s.at? i fun c => !decide (c.send.length < sendCap)
  | _ => false

def drops (i : Nat) : State M → List (Int × Step M) → Nat
  | _, [] => 0
  | s, a :: steps => (full i s a).toNat + drops i (s.step a) steps

def owedOf (inFlight : Option (M × List Nat)) (i : Nat) : List M :=
  match inFlight with
  | some (msg, clients) => if i ∈ clients then [msg] else []
  | none => []

def State.owed (s : State M) (i : Nat) : List M := owedOf s.inFlight i

theorem owedOf_visit (msg : M) (clients : List Nat) (i : Nat) :
    owedOf (State.visit msg clients) i = if i ∈ clients then [msg] else [] := by
  rw [State.visit]
  by_cases hnil : clients = [] <;> simp [owedOf, hnil]

theorem remaining_visit (msg : M) (clients : List Nat) : ((State.visit msg clients).map Prod.snd).getD [] = clients := by
  rw [State.visit]
  by_cases hnil : clients = [] <;> simp [hnil]

/-- What a client has been sent, of the messages since it joined; it misses those that are dropped. -/
structure Sent (log due : List M) (d : Nat) (c : Conn M) : Prop where
  isOpen : c.registered = true → c.phase = .reading ∧ c.sendClosed = false
  due_registered : due ≠ [] → c.registered = true
  joined_le : c.joined ≤ log.length
  order : (c.written ++ c.send ++ due).Sublist (log.drop c.joined)
  bounded : c.send.length ≤ sendCap
  misses : c.registered = true → c.writing = true → (c.written ++ c.send ++ due).length + d = (log.drop c.joined).length
  idle : c.phase = .upgrading → c.sendClosed = false ∧ c.written = [] ∧ c.send = [] ∧ d = 0

structure Inv (D : Nat → Nat) (s : State M) : Prop where
  safe : s.panicked = false
  nodup : s.remaining.Nodup
  inRange : ∀ i ∈ s.remaining, i < s.conns.length
  fresh : ∀ i, s.conns.length ≤ i → D i = 0
  sent : ∀ i c, s.conns[i]? = some c → Sent s.log (s.owed i) (D i) c

theorem State.owed_ne_nil : s.owed i ≠ [] ↔ i ∈ s.remaining := by
  rw [State.owed, State.remaining]
  cases s.inFlight with
  | none => simp [owedOf]
  | some b => by_cases hi : i ∈ b.2 <;> simp [owedOf, hi]

theorem State.owed_unlocked (h : s.unlocked = true) (i : Nat) : s.owed i = [] := by
  rw [State.owed, Option.isNone_iff_eq_none.mp h]
  rfl

theorem State.at?_iff {p : Conn M → Bool} : s.at? i p = true ↔ ∃ c, s.conns[i]? = some c ∧ p c = true := by
  simp [State.at?, Option.any_eq_true]

theorem Sent.new (log : List M) : Sent log [] 0 ({} : Conn M) where
  isOpen h := by cases h
  due_registered h := absurd rfl h
  joined_le := Nat.zero_le _
  order := List.nil_sublist _
  bounded := Nat.zero_le _
  misses h := by cases h
  idle _ := ⟨rfl, rfl, rfl, rfl⟩

theorem Sent.gone (h : Sent log due d c) (hreg : c.registered = false) : Sent log due d { c with phase := .gone } where
  isOpen hr := absurd hr (by simp [hreg])
  due_registered := h.due_registered
  joined_le := h.joined_le
  order := h.order
  bounded := h.bounded
  misses hr := absurd hr (by simp [hreg])
  idle hp := by cases hp

theorem Sent.register (h : Sent log [] d c) (hp : c.phase = .upgrading) :
    Sent log [] d { c with phase := .reading, registered := true, joined := log.length, writing := true } := by
  obtain ⟨hclosed, hwritten, hsend, hd⟩ := h.idle hp
  exact
    { isOpen := fun _ => ⟨rfl, hclosed⟩
      due_registered := fun ho => absurd rfl ho
      joined_le := le_refl _
      order := by simp [hwritten, hsend]
      bounded := h.bounded
      misses := fun _ _ => by simp [hwritten, hsend, hd]
      idle := fun hp => by cases hp }

theorem Sent.evict (h : Sent log [] d c) : Sent log [] d (State.evict c) := by
  rw [State.evict]
  split
  · next hr =>
      exact
        { h with
          isOpen := fun hr => by cases hr
          due_registered := fun ho => absurd rfl ho
          misses := fun hr => by cases hr
          idle := fun hp => by simp [(h.isOpen hr).1] at hp }
  · exact h

theorem Sent.leave (h : Sent log [] d c) : Sent log [] d { State.evict c with phase := .leaving } := by
  have hevicted := h.evict
  have hreg : (State.evict c).registered = false := by
    rw [State.evict]
    split <;> simp_all
  exact
    { hevicted with
      isOpen := fun hr => absurd hr (by simp [hreg])
      idle := fun hp => by cases hp }

theorem Sent.writeNext (h : Sent log due d c) (ok : Bool) : Sent log due d (State.writeNext ok c) := by
  obtain ⟨phase, registered, joined, send, sendClosed, writing, written⟩ := c
  rw [State.writeNext]
  split
  · cases send with
    | nil =>
        dsimp only
        split
        · exact { h with misses := fun _ hw => by cases hw }
        · exact h
    | cons msg rest =>
        have hidle : phase ≠ .upgrading := fun hp => by simpa using (h.idle hp).2.2.1
        have hbounded : rest.length ≤ sendCap := le_trans (Nat.le_succ _) h.bounded
        cases ok with
        | true =>
            exact
              { h with
                order := by simpa using h.order
                bounded := hbounded
                misses := fun hr hw => by simpa using h.misses hr hw
                idle := fun hp => absurd hp hidle }
        | false =>
            have hsub : (written ++ rest ++ due).Sublist (written ++ msg :: rest ++ due) := by
              simp [List.append_assoc]
            exact
              { h with
                order := hsub.trans h.order
                bounded := hbounded
                misses := fun _ hw => by cases hw
                idle := fun hp => absurd hp hidle }
  · exact h

theorem Sent.pingFails (h : Sent log due d c) : Sent log due d { c with writing := false } :=
  { h with misses := fun _ hw => by cases hw }

theorem Sent.broadcast (h : Sent log [] d c) (msg : M) :
    Sent (log ++ [msg]) (if c.registered then [msg] else []) d c := by
  have hdrop : (log ++ [msg]).drop c.joined = log.drop c.joined ++ [msg] := List.drop_append_of_le_length h.joined_le
  have horder := h.order
  rw [List.append_nil] at horder
  refine
    { isOpen := h.isOpen
      due_registered := ?_
      joined_le := h.joined_le.trans (by simp)
      order := ?_
      bounded := h.bounded
      misses := ?_
      idle := h.idle }
  · split
    · next hr => exact fun _ => hr
    · exact fun ho => absurd rfl ho
  · rw [hdrop]
    split
    · exact horder.append (List.Sublist.refl _)
    · simpa using horder.append (List.nil_sublist [msg])
  · intro hr hw
    have hmisses := h.misses hr hw
    rw [hdrop, if_pos hr]
    simp only [List.length_append, List.length_nil, List.length_singleton] at hmisses ⊢
    omega

theorem Sent.push {msg : M} (h : Sent log [msg] d c) :
    Sent log [] (d + (!decide (c.send.length < sendCap)).toNat) (State.push msg c) := by
  have hr := h.due_registered (by simp)
  have hidle : c.phase ≠ .upgrading := by simp [(h.isOpen hr).1]
  rw [State.push]
  by_cases hroom : c.send.length < sendCap
  · rw [if_pos hroom]
    exact
      { isOpen := h.isOpen
        due_registered := fun ho => absurd rfl ho
        joined_le := h.joined_le
        order := by simpa using h.order
        bounded := by simpa [Nat.succ_le_iff] using hroom
        misses := fun hr hw => by simpa [hroom] using h.misses hr hw
        idle := fun hp => absurd hp hidle }
  · rw [if_neg hroom]
    have hsub : (c.written ++ c.send ++ []).Sublist (c.written ++ c.send ++ [msg]) :=
      (List.Sublist.refl _).append (List.nil_sublist _)
    exact
      { isOpen := h.isOpen
        due_registered := fun ho => absurd rfl ho
        joined_le := h.joined_le
        order := hsub.trans h.order
        bounded := h.bounded
        misses := by
          intro hr hw
          have hmisses := h.misses hr hw
          simp only [List.length_append, List.length_nil, List.length_singleton, hroom, decide_false, Bool.not_false,
            Bool.toNat_true] at hmisses ⊢
          omega
        idle := fun hp => absurd hp hidle }

theorem Inv.modify (h : Inv D s) (i : Nat) {f : Conn M → Conn M}
    (hf : ∀ c, s.conns[i]? = some c → Sent s.log (s.owed i) (D i) (f c)) : Inv D (s.modify i f) where
  safe := h.safe
  nodup := h.nodup
  inRange j hj := by simpa [State.modify] using h.inRange j hj
  fresh j hj := h.fresh j (by simpa [State.modify] using hj)
  sent := by
    intro j c hc
    rw [State.modify, List.getElem?_modify] at hc
    obtain ⟨c', hc', rfl⟩ := Option.map_eq_some_iff.mp hc
    by_cases hij : i = j
    · subst hij
      rw [if_pos rfl]
      exact hf c' hc'
    · rw [if_neg hij]
      exact h.sent j c' hc'

theorem Inv.server (h : Inv D s) (server : Server) : Inv D { s with server := server } :=
  ⟨h.safe, h.nodup, h.inRange, h.fresh, h.sent⟩

theorem Inv.serve (h : Inv D s) (r : Request) (now : Int) : Inv D (s.serve r now) := by
  rw [State.serve]
  split
  · refine ⟨h.safe, h.nodup, ?_, ?_, ?_⟩
    · intro i hi
      have := h.inRange i hi
      simp only [List.length_append, List.length_singleton]
      omega
    · intro i hi
      simp only [List.length_append, List.length_singleton] at hi
      exact h.fresh i (by omega)
    · intro i c hc
      rcases Nat.lt_trichotomy i s.conns.length with hlt | heq | hgt
      · rw [List.getElem?_append_left hlt] at hc
        exact h.sent i c hc
      · subst heq
        rw [List.getElem?_concat_length] at hc
        cases hc
        have hdue : s.owed s.conns.length = [] := by
          by_contra hne
          exact absurd (h.inRange _ (State.owed_ne_nil.mp hne)) (lt_irrefl _)
        change Sent s.log (s.owed s.conns.length) (D s.conns.length) {}
        rw [hdue, h.fresh _ le_rfl]
        exact Sent.new s.log
      · rw [List.getElem?_eq_none (by simp; omega)] at hc
        cases hc
  · exact h.server _

theorem Inv.leaves (h : Inv D s) {phase : Phase} (hphase : phase ≠ .reading) (now : Int) :
    Inv D (if s.at? i fun c => c.phase = phase then
      { s with server := s.server.step (.release i now) }.modify i fun c => { c with phase := .gone } else s) := by
  split
  · next hat =>
      obtain ⟨c, hc, hp⟩ := State.at?_iff.mp hat
      apply (h.server _).modify
      intro c' hc'
      have hsame : c = c' := Option.some.inj (hc.symm.trans hc')
      subst hsame
      have hsent := h.sent i c hc
      have hreg : c.registered = false := by
        by_contra hr
        rw [Bool.not_eq_false] at hr
        exact hphase ((of_decide_eq_true hp).symm.trans (hsent.isOpen hr).1)
      exact hsent.gone hreg
  · exact h

theorem Inv.register (h : Inv D s) (i : Nat) : Inv D (s.register i) := by
  rw [State.register]
  split
  · next hguard =>
      rw [Bool.and_eq_true] at hguard
      obtain ⟨c, hc, hp⟩ := State.at?_iff.mp hguard.2
      apply h.modify
      intro c' hc'
      have hsame : c = c' := Option.some.inj (hc.symm.trans hc')
      subst hsame
      have hsent := h.sent i c hc
      rw [State.owed_unlocked hguard.1] at hsent ⊢
      exact hsent.register (of_decide_eq_true hp)
  · exact h

theorem Inv.broadcast (h : Inv D s) (msg : M) : Inv D (s.broadcast msg) := by
  rw [State.broadcast]
  split
  · next hfree =>
      set clients := (List.range s.conns.length).filter fun i => s.at? i Conn.registered with hclients
      refine ⟨h.safe, ?_, ?_, h.fresh, ?_⟩
      · rw [State.remaining, remaining_visit]
        exact List.nodup_range.filter _
      · intro i hi
        rw [State.remaining, remaining_visit] at hi
        exact List.mem_range.mp (List.mem_filter.mp hi).1
      · intro i c hc
        have hsent := h.sent i c hc
        rw [State.owed_unlocked hfree] at hsent
        have hlt : i < s.conns.length := (List.getElem?_eq_some_iff.mp hc).1
        have hmem : i ∈ clients ↔ c.registered = true := by
          rw [hclients, List.mem_filter, State.at?, hc]
          simp [hlt]
        rw [State.owed, owedOf_visit]
        simp only [hmem]
        exact hsent.broadcast msg
  · exact h

theorem Inv.congr (h : Inv D s) {D' : Nat → Nat} (hD : ∀ i, D' i = D i) : Inv D' s := (funext hD : D' = D) ▸ h

theorem Inv.send (h : Inv D s) (j : Nat) (now : Int) : Inv (fun i => D i + (full i s (now, .send j)).toNat) (s.send j) := by
  rw [State.send]
  cases hflight : s.inFlight with
  | none =>
      apply h.congr
      intro i
      simp [full, State.remaining, hflight]
  | some b =>
      obtain ⟨msg, clients⟩ := b
      have hremaining : s.remaining = clients := by simp [State.remaining, hflight]
      have hnodup : clients.Nodup := hremaining ▸ h.nodup
      dsimp only
      by_cases hj : j ∈ clients
      · rw [if_pos hj]
        obtain ⟨c, hc⟩ : ∃ c, s.conns[j]? = some c := ⟨_, List.getElem?_eq_getElem (h.inRange j (hremaining ▸ hj))⟩
        have hsent := h.sent j c hc
        have hdue : s.owed j = [msg] := by simp [State.owed, owedOf, hflight, hj]
        rw [hdue] at hsent
        have hclosed : s.at? j Conn.sendClosed = false := by
          simp [State.at?, hc, (hsent.isOpen (hsent.due_registered (by simp))).2]
        refine ⟨?_, ?_, ?_, ?_, ?_⟩
        · simp [State.modify, h.safe, hclosed]
        · rw [State.remaining, State.modify, remaining_visit]
          exact hnodup.erase j
        · intro i hi
          rw [State.remaining, State.modify, remaining_visit] at hi
          simpa [State.modify] using h.inRange i (hremaining ▸ List.mem_of_mem_erase hi)
        · intro i hi
          have hlen : s.conns.length ≤ i := by simpa [State.modify] using hi
          simp [full, State.at?, List.getElem?_eq_none hlen, h.fresh i hlen]
        · intro i c' hc'
          rw [State.modify, List.getElem?_modify] at hc'
          obtain ⟨old, hold, rfl⟩ := Option.map_eq_some_iff.mp hc'
          rw [State.owed, State.modify, owedOf_visit]
          by_cases hij : j = i
          · subst hij
            have hsame : c = old := Option.some.inj (hc.symm.trans hold)
            subst hsame
            rw [if_pos rfl, if_neg hnodup.not_mem_erase]
            simpa [full, hremaining, hj, State.at?, hc] using hsent.push
          · have hmem : i ∈ clients.erase j ↔ i ∈ clients := List.mem_erase_of_ne (Ne.symm hij)
            have hother := h.sent i old hold
            simp only [State.owed, hflight, owedOf] at hother
            simpa [hij, hmem, full] using hother
      · rw [if_neg hj]
        apply h.congr
        intro i
        have hno : ¬ (j = i ∧ i ∈ s.remaining) := fun hi => hj (hremaining ▸ hi.1 ▸ hi.2)
        simp [full, hno]

theorem Inv.unregister (h : Inv D s) (i : Nat) : Inv D (s.unregister i) := by
  rw [State.unregister]
  split
  · next hguard =>
      rw [Bool.and_eq_true] at hguard
      apply h.modify
      intro c hc
      have hsent := h.sent i c hc
      rw [State.owed_unlocked hguard.1] at hsent ⊢
      exact hsent.leave
  · exact h

theorem Inv.close (h : Inv D s) : Inv D s.close := by
  rw [State.close]
  split
  · next hfree =>
      refine ⟨h.safe, h.nodup, fun i hi => by simpa using h.inRange i hi, by simpa using h.fresh, ?_⟩
      intro i c hc
      rw [List.getElem?_map] at hc
      obtain ⟨old, hold, rfl⟩ := Option.map_eq_some_iff.mp hc
      have hsent := h.sent i old hold
      change Sent s.log (s.owed i) (D i) (State.evict old)
      rw [State.owed_unlocked hfree] at hsent ⊢
      exact hsent.evict
  · exact h

theorem Inv.step (h : Inv D s) (a : Int × Step M) : Inv (fun i => D i + (full i s a).toNat) (s.step a) := by
  obtain ⟨now, a⟩ := a
  cases a with
  | send j => exact h.send j now
  | serve r => exact h.serve r now
  | upgradeFails i => exact h.leaves (by simp) now
  | register i => exact h.register i
  | broadcast msg => exact h.broadcast msg
  | write i ok => exact h.modify i fun c hc => (h.sent i c hc).writeNext ok
  | pingFails i => exact h.modify i fun c hc => (h.sent i c hc).pingFails
  | unregister i => exact h.unregister i
  | release i => exact h.leaves (by simp) now
  | close => exact h.close

theorem Inv.run (h : Inv D s) (steps : List (Int × Step M)) : Inv (fun i => D i + drops i s steps) (s.run steps) := by
  induction steps generalizing s D with
  | nil => exact h
  | cons a steps ih =>
      apply (ih (h.step a)).congr
      intro i
      rw [drops, Nat.add_assoc]

/-- Nothing is sent on a closed channel. A client gets messages that were broadcast since it joined, in their order;
while it is in the hub and is written to, it misses as many as found its channel full. -/
structure Delivered (dropped : Nat → Nat) (s : State M) : Prop where
  safe : s.panicked = false
  order : ∀ c ∈ s.conns, (c.written ++ c.send).Sublist (s.log.drop c.joined)
  bounded : ∀ c ∈ s.conns, c.send.length ≤ sendCap
  misses : ∀ i c, s.conns[i]? = some c → c.registered = true → c.writing = true →
    (s.log.drop c.joined).length = (c.written ++ c.send ++ s.owed i).length + dropped i

theorem delivered (server : Server) (steps : List (Int × Step M)) :
    Delivered (fun i => drops i { server := server } steps) (State.run { server := server } steps) := by
  have hstart : Inv (fun _ => 0) ({ server := server } : State M) :=
    ⟨rfl, List.nodup_nil, fun i hi => by simp [State.remaining] at hi, fun _ _ => rfl, fun i c hc => by simp at hc⟩
  have hend := (hstart.run steps).congr fun i => (Nat.zero_add (drops i { server := server } steps)).symm
  refine ⟨hend.safe, ?_, ?_, fun i c hc hr hw => ((hend.sent i c hc).misses hr hw).symm⟩
  · intro c hc
    obtain ⟨i, hi⟩ := List.mem_iff_getElem?.mp hc
    exact (List.sublist_append_left _ _).trans (hend.sent i c hi).order
  · intro c hc
    obtain ⟨i, hi⟩ := List.mem_iff_getElem?.mp hc
    exact (hend.sent i c hi).bounded

open WSLimits (Grant Limiter connsOf live)

/-- The connections of the client that has the address, as far as it can be told apart, whose release function has
not been called. -/
def State.openConns (s : State M) (ip : Addresses.IP) : Nat :=
  (s.server.grants.zip s.conns).countP fun p =>
    decide (s.server.limiter.clientKey p.1.request = some ip.string) && !decide (p.2.phase = .gone)

def Conn.isGone (c : Conn M) : Bool := decide (c.phase = .gone)

def Matched (s : State M) : Prop := s.server.grants.map Grant.released = s.conns.map Conn.isGone

theorem countP_zip {A B : Type} {l : List A} {l' : List B} {f : A → Bool} {f' : B → Bool} (h : l.map f = l'.map f')
    (q : A → Bool) : (l.zip l').countP (fun p => q p.1 && !f' p.2) = l.countP fun a => q a && !f a := by
  induction l generalizing l' with
  | nil => simp
  | cons a l ih =>
      cases l' with
      | nil => simp at h
      | cons b l' =>
          simp only [List.map_cons, List.cons.injEq] at h
          rw [List.zip_cons_cons, List.countP_cons, List.countP_cons, ih h.2, h.1]

theorem Matched.openConns (h : Matched s) (hkeyed : ∀ g ∈ s.server.grants, WSLimits.Keyed s.server.limiter g)
    (ip : Addresses.IP) : s.openConns ip = live s.server.grants ip.string := by
  refine (countP_zip h fun g => decide (s.server.limiter.clientKey g.request = some ip.string)).trans ?_
  apply List.countP_congr
  intro g hg
  rw [Grant.live, decide_eq_decide.mpr ((hkeyed g hg).key_eq ip)]

theorem Matched.modify (h : Matched s) (i : Nat) {f : Conn M → Conn M}
    (hf : ∀ c, s.conns[i]? = some c → (f c).isGone = c.isGone) : Matched (s.modify i f) := by
  rw [Matched, State.modify]
  refine h.trans ?_
  apply List.ext_getElem?
  intro j
  rw [List.getElem?_map, List.getElem?_map, List.getElem?_modify]
  cases hc : s.conns[j]? with
  | none => rfl
  | some c =>
      by_cases hij : i = j
      · subst hij
        simp [hf c hc]
      · simp [hij]

theorem Matched.serve (h : Matched s) (r : Request) (now : Int) : Matched (s.serve r now) := by
  rw [Matched, State.serve, Server.step]
  dsimp only
  split
  · rw [List.map_append, List.map_append, show s.server.grants.map Grant.released = s.conns.map Conn.isGone from h]
    rfl
  · exact h

theorem Matched.leaves (h : Matched s) {phase : Phase} (hphase : phase ≠ .gone) (i : Nat) (now : Int) :
    Matched (if s.at? i fun c => c.phase = phase then
      { s with server := s.server.step (.release i now) }.modify i fun c => { c with phase := .gone } else s) := by
  split
  · next hat =>
      obtain ⟨c, hc, hp⟩ := State.at?_iff.mp hat
      have hreleased : (s.server.grants.map Grant.released)[i]? = some false := by
        rw [h, List.getElem?_map, hc]
        simp [Conn.isGone, of_decide_eq_true hp, hphase]
      rw [List.getElem?_map] at hreleased
      obtain ⟨g, hg, hgr⟩ := Option.map_eq_some_iff.mp hreleased
      have hlt : i < s.conns.length := (List.getElem?_eq_some_iff.mp hc).1
      rw [Matched, State.modify, Server.step, hg]
      simp only [hgr, Bool.false_eq_true, if_false, List.map_set]
      rw [show s.server.grants.map Grant.released = s.conns.map Conn.isGone from h]
      apply List.ext_getElem?
      intro j
      rw [List.getElem?_set, List.getElem?_map, List.getElem?_map, List.getElem?_modify]
      by_cases hij : i = j
      · subst hij
        simp [hlt, Conn.isGone]
      · rw [if_neg hij]
        simp [hij]
  · exact h

theorem isGone_writeNext (ok : Bool) (c : Conn M) : (State.writeNext ok c).isGone = c.isGone := by
  rw [State.writeNext]
  split
  · split
    · split <;> rfl
    · split <;> rfl
  · rfl

theorem isGone_evict (c : Conn M) : (State.evict c).isGone = c.isGone := by
  rw [State.evict]
  split <;> rfl

theorem Matched.step (h : Matched s) (a : Int × Step M) : Matched (s.step a) := by
  obtain ⟨now, a⟩ := a
  cases a with
  | serve r => exact h.serve r now
  | upgradeFails i => exact h.leaves (by simp) i now
  | release i => exact h.leaves (by simp) i now
  | register i =>
      rw [State.step, State.register]
      split
      · next hguard =>
          rw [Bool.and_eq_true] at hguard
          obtain ⟨c, hc, hp⟩ := State.at?_iff.mp hguard.2
          apply h.modify
          intro c' hc'
          have hsame : c = c' := Option.some.inj (hc.symm.trans hc')
          subst hsame
          simp [Conn.isGone, of_decide_eq_true hp]
      · exact h
  | broadcast msg =>
      rw [State.step, State.broadcast]
      split <;> exact h
  | send i =>
      rw [State.step, State.send]
      split
      · split
        · apply Matched.modify h
          intro c _
          rw [State.push]
          split <;> rfl
        · exact h
      · exact h
  | write i ok => exact h.modify i fun c _ => isGone_writeNext ok c
  | pingFails i => exact h.modify i fun _ _ => rfl
  | unregister i =>
      rw [State.step, State.unregister]
      split
      · next hguard =>
          rw [Bool.and_eq_true] at hguard
          obtain ⟨c, hc, hp⟩ := State.at?_iff.mp hguard.2
          apply h.modify
          intro c' hc'
          have hsame : c = c' := Option.some.inj (hc.symm.trans hc')
          subst hsame
          simp [Conn.isGone, of_decide_eq_true hp]
      · exact h
  | close =>
      rw [State.step, State.close]
      split
      · rw [Matched, List.map_map]
        refine h.trans (List.map_congr_left fun c _ => ?_)
        exact (isGone_evict c).symm
      · exact h

variable {C U : Nat} {last now : Int}

theorem inv_step (h : WSLimits.Inv C U s.server last) (hC : 0 < C) (hU : 0 < U) (hlast : last ≤ now) (a : Step M) :
    WSLimits.Inv C U (s.step (now, a)).server now := by
  have hsame : WSLimits.Inv C U s.server now := h.mono hlast
  cases a with
  | serve r => exact h.allow hC hU hlast r
  | upgradeFails i =>
      rw [State.step, State.upgradeFails]
      split
      · exact h.release hlast i
      · exact hsame
  | release i =>
      rw [State.step, State.release]
      split
      · exact h.release hlast i
      · exact hsame
  | register i =>
      rw [State.step, State.register]
      split <;> exact hsame
  | broadcast msg =>
      rw [State.step, State.broadcast]
      split <;> exact hsame
  | send i =>
      rw [State.step, State.send]
      split
      · split <;> exact hsame
      · exact hsame
  | write i ok => exact hsame
  | pingFails i => exact hsame
  | unregister i =>
      rw [State.step, State.unregister]
      split <;> exact hsame
  | close =>
      rw [State.step, State.close]
      split <;> exact hsame

theorem inv_run (hC : 0 < C) (hU : 0 < U) {steps : List (Int × Step M)} (h : WSLimits.Inv C U s.server last)
    (hsorted : steps.Pairwise fun a b => a.1 ≤ b.1) (hfirst : ∀ a ∈ steps, last ≤ a.1) :
    ∃ now, WSLimits.Inv C U (s.run steps).server now := by
  induction steps generalizing s last with
  | nil => exact ⟨last, h⟩
  | cons a steps ih =>
      rw [List.pairwise_cons] at hsorted
      exact ih (inv_step h hC hU (hfirst a List.mem_cons_self) a.2) hsorted.2 hsorted.1

/-- A connection of a client that can be told apart takes a slot of its address from `allow` until its goroutine that
reads has ended, or its upgrade has failed, and no longer; there are never more of them than the limit. -/
structure SlotsHeld (C : Nat) (s : State M) : Prop where
  conns : ∀ ip : Addresses.IP, connsOf (s.server.limiter.state ip.string) = s.openConns ip
  cap : ∀ ip : Addresses.IP, s.openConns ip ≤ C

theorem slots_held (C U : Nat) (hC : 0 < C) (hU : 0 < U) (trustedProxies denyNets : List Addresses.IPNet)
    (steps : List (Int × Step M)) (hsorted : steps.Pairwise fun a b => a.1 ≤ b.1) :
    SlotsHeld C (State.run { server := { limiter := Limiter.new C U trustedProxies denyNets } } steps) := by
  have hmatched : Matched (State.run { server := { limiter := Limiter.new C U trustedProxies denyNets } } steps) := by
    have hstart : Matched ({ server := { limiter := Limiter.new C U trustedProxies denyNets } } : State M) := rfl
    exact Runs.foldl_invariant hstart fun _ a _ h => h.step a
  obtain ⟨now, hinv⟩ : ∃ now, WSLimits.Inv C U
      (State.run { server := { limiter := Limiter.new C U trustedProxies denyNets } } steps).server now := by
    cases steps with
    | nil => exact ⟨0, WSLimits.Inv.new C U trustedProxies denyNets 0⟩
    | cons a steps =>
        apply inv_run hC hU (WSLimits.Inv.new C U trustedProxies denyNets a.1) hsorted
        intro b hb
        rcases List.mem_cons.mp hb with rfl | hb
        · exact le_rfl
        · exact (List.pairwise_cons.mp hsorted).1 b hb
  have haccount := fun ip : Addresses.IP => hinv.account ip.string ip.string_ne_nil
  constructor
  · intro ip
    rw [hmatched.openConns hinv.keyed]
    exact (haccount ip).conns
  · intro ip
    rw [hmatched.openConns hinv.keyed]
    exact (haccount ip).cap

/-- The only slot is taken by a connection until it has gone; then the next one gets it. -/
theorem slots_held_handedOver :
    SlotsHeld 1 (State.run { server := { limiter := Limiter.new 1 5 [] [] } }
      [(0, .serve ⟨WSLimits.directAddr, []⟩), (1, .register 0), (2, .serve ⟨WSLimits.directAddr, []⟩), (3, .broadcast "hello"),
        (3, .send 0), (4, .unregister 0), (5, .release 0), (6, .serve ⟨WSLimits.directAddr, []⟩)]) :=
  slots_held 1 5 Nat.one_pos (Nat.succ_pos 4) [] [] _ (by decide)

end MeshcoreAnalyzer.Hub
