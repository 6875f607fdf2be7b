import MeshcoreAnalyzer.ConfiguredScope
import MeshcoreAnalyzer.MillisStamps
import MeshcoreAnalyzer.Transmissions

namespace MeshcoreAnalyzer.RadioDeltas

open MillisStamps PacketStore Timestamps

/-! What `ClientRfDeltas` of cmd/ingestor/client_rf_sample.go makes of the samples of one radio. -/

section Consecutive

variable {A : Type} {r : A → A → Prop} {a b : A} {l : List A}

theorem mem_zip_tail_iff (hirrefl : ∀ a, ¬ r a a) (htrans : ∀ a b c, r a b → r b c → r a c) (hl : l.Pairwise r) :
    (a, b) ∈ l.zip l.tail ↔ a ∈ l ∧ b ∈ l ∧ r a b ∧ ∀ c ∈ l, ¬ (r a c ∧ r c b) := by
  induction l with
  | nil => simp
  | cons x l ih =>
      obtain ⟨hx, hl⟩ := List.pairwise_cons.mp hl
      cases l with
      | nil =>
          refine iff_of_false List.not_mem_nil ?_
          rintro ⟨ha, hb, hab, -⟩
          rw [List.mem_singleton.mp ha, List.mem_singleton.mp hb] at hab
          exact hirrefl x hab
      | cons y l =>
          obtain ⟨hy, -⟩ := List.pairwise_cons.mp hl
          have hxy := hx y List.mem_cons_self
          rw [List.tail_cons, List.zip_cons_cons, List.mem_cons, Prod.mk.injEq]
          constructor
          · rintro (⟨rfl, rfl⟩ | hmem)
            · refine ⟨List.mem_cons_self, List.mem_cons_of_mem _ List.mem_cons_self, hxy, ?_⟩
              rintro c hc ⟨hac, hcb⟩
              rcases List.mem_cons.mp hc with rfl | hc
              · exact hirrefl _ hac
              · rcases List.mem_cons.mp hc with rfl | hc
                · exact hirrefl _ hcb
                · exact hirrefl _ (htrans _ _ _ (hy c hc) hcb)
            · obtain ⟨ha, hb, hab, hbetween⟩ := (ih hl).mp hmem
              refine ⟨List.mem_cons_of_mem _ ha, List.mem_cons_of_mem _ hb, hab, ?_⟩
              rintro c hc ⟨hac, hcb⟩
              rcases List.mem_cons.mp hc with rfl | hc
              · exact hirrefl _ (htrans _ _ _ hac (hx a ha))
              · exact hbetween c hc ⟨hac, hcb⟩
          · rintro ⟨ha, hb, hab, hbetween⟩
            have hb' : b ∈ y :: l := by
              rcases List.mem_cons.mp hb with rfl | hb
              · rcases List.mem_cons.mp ha with rfl | ha
                · exact absurd hab (hirrefl _)
                · exact absurd (htrans _ _ _ hab (hx a ha)) (hirrefl _)
              · exact hb
            rcases List.mem_cons.mp ha with rfl | ha
            · left
              refine ⟨rfl, ?_⟩
              rcases List.mem_cons.mp hb' with hby | hbl
              · exact hby
              · exact absurd ⟨hxy, hy b hbl⟩ (hbetween y (List.mem_cons_of_mem _ List.mem_cons_self))
            · right
              exact (ih hl).mpr ⟨ha, hb', hab, fun c hc => hbetween c (List.mem_cons_of_mem _ hc)⟩

end Consecutive

/-- The columns that are subtracted: `rx_air_secs`, `tx_air_secs`, `recv` and `recv_errors`. -/
inductive Counter
  | rxAirSecs
  | txAirSecs
  | recv
  | recvErrors

/-- A row of `client_rf_samples`; `place` is what is only copied, the position and whether the radio stood still. -/
structure Row (P : Type) where
  rxPubkey : String
  sampledAt : String
  place : P
  uptimeSecs : Int
  counter : Counter → Option Int

structure ClientRfDelta (P : Type) where
  sampledAt : String
  place : P
  wallMillis : Int
  delta : Counter → Option Int

def deltaOf : Option Int → Option Int → Option Int
  | some cur, some prev => some (if cur - prev < 0 then 0 else cur - prev)
  | _, _ => none

variable {P : Type}

def deltaRow (prev cur : Row P) : Option (ClientRfDelta P) :=
  if cur.uptimeSecs ≤ prev.uptimeSecs then none
  else match parseRFC3339 prev.sampledAt, parseRFC3339 cur.sampledAt with
    | some t1, some t2 =>
        some
          { sampledAt := cur.sampledAt
            place := cur.place
            wallMillis := (sub t2 t1).tdiv (10 ^ 6)
            delta := fun c => deltaOf (cur.counter c) (prev.counter c) }
    | _, _ => none

def window (table : List (Row P)) (rxPubkey fromAt toAt : String) : List (Row P) :=
  (table.filter fun row => row.rxPubkey = rxPubkey ∧ fromAt ≤ row.sampledAt ∧ row.sampledAt < toAt).insertionSort
    fun a b => a.sampledAt ≤ b.sampledAt

def clientRfDeltas (table : List (Row P)) (rxPubkey fromAt toAt : String) : List (ClientRfDelta P) :=
  let rows := window table (toLower (trimSpace rxPubkey)) fromAt toAt
  (rows.zip rows.tail).filterMap fun p => deltaRow p.1 p.2

/-- A boot, in milliseconds, and what its counters have reached so many milliseconds later. -/
structure Boot where
  start : Int
  counter : Counter → Nat → Nat
  zero : ∀ c, counter c 0 = 0
  mono : ∀ c, Monotone (counter c)

structure Radio where
  boots : List Boot
  ordered : boots.Pairwise fun b b' => b.start ≤ b'.start

def Radio.begun (radio : Radio) (t : Int) : List Boot := radio.boots.takeWhile fun b => b.start ≤ t

/-- A sample: its time, the counters that the firmware reports, and the boot that runs. -/
structure Sample (radio : Radio) (P : Type) where
  time : Int
  fourDigits : FourDigits time
  reports : Counter → Bool
  place : P
  boot : Boot
  running : (radio.begun time).getLast? = some boot

namespace Sample

variable {radio : Radio}

def uptimeMillis (s : Sample radio P) : Nat := (s.time - s.boot.start).toNat

def row (s : Sample radio P) (rxPubkey : String) : Row P where
  rxPubkey
  sampledAt := stampMillis s.time
  place := s.place
  uptimeSecs := (s.uptimeMillis / 1000 : Nat)
  counter c := if s.reports c then some (s.boot.counter c s.uptimeMillis) else none

def SameBoot (s s' : Sample radio P) : Prop := radio.begun s.time = radio.begun s'.time

end Sample

section Samples

variable {radio : Radio}

/-- Of the radio the table has these samples and no others. -/
def Holds (table : List (Row P)) (rxPubkey : String) (samples : List (Sample radio P)) : Prop :=
  (table.filter fun row => row.rxPubkey = rxPubkey).Perm (samples.map fun s => s.row rxPubkey)

structure Consecutive (samples : List (Sample radio P)) (s s' : Sample radio P) : Prop where
  left : s ∈ samples
  right : s' ∈ samples
  lt : s.time < s'.time
  between : ∀ u ∈ samples, ¬ (s.time < u.time ∧ u.time < s'.time)

def InWindow (fromAt toAt : String) (s : Sample radio P) : Prop :=
  fromAt ≤ stampMillis s.time ∧ stampMillis s.time < toAt

variable {table : List (Row P)} {pk fromAt toAt : String} {samples : List (Sample radio P)}

theorem stampMillis_lt_sample (s s' : Sample radio P) : stampMillis s.time < stampMillis s'.time ↔ s.time < s'.time :=
  stampMillis_lt_iff s.fourDigits s'.fourDigits

theorem stampMillis_inj {s s' : Sample radio P} (h : stampMillis s.time = stampMillis s'.time) : s.time = s'.time := by
  rcases lt_trichotomy s.time s'.time with hlt | heq | hlt
  · exact absurd ((stampMillis_lt_sample s s').mpr hlt) (not_lt.mpr h.ge)
  · exact heq
  · exact absurd ((stampMillis_lt_sample s' s).mpr hlt) (not_lt.mpr h.le)

theorem Consecutive.time_left {s s' t t' : Sample radio P} (h : Consecutive samples s s')
    (h' : Consecutive samples t t') (heq : s'.time = t'.time) : s.time = t.time := by
  rcases lt_trichotomy s.time t.time with hlt | hsame | hlt
  · exact absurd ⟨hlt, heq ▸ h'.lt⟩ (h.between t h'.left)
  · exact hsame
  · exact absurd ⟨hlt, heq ▸ h.lt⟩ (h'.between s h.left)

theorem mem_window (h : Holds table pk samples) {row : Row P} :
    row ∈ window table pk fromAt toAt ↔ ∃ s ∈ samples, InWindow fromAt toAt s ∧ s.row pk = row := by
  rw [window, (List.perm_insertionSort _ _).mem_iff, List.mem_filter, decide_eq_true_eq]
  constructor
  · rintro ⟨hrow, hpk, hwindow⟩
    have hmine := h.mem_iff.mp (List.mem_filter.mpr ⟨hrow, decide_eq_true hpk⟩)
    obtain ⟨s, hs, rfl⟩ := List.mem_map.mp hmine
    exact ⟨s, hs, hwindow, rfl⟩
  · rintro ⟨s, hs, hwindow, rfl⟩
    have hmine := h.mem_iff.mpr (List.mem_map.mpr ⟨s, hs, rfl⟩)
    exact ⟨(List.mem_filter.mp hmine).1, rfl, hwindow⟩

theorem nodup_window (h : Holds table pk samples) (htimes : (samples.map Sample.time).Nodup) :
    ((window table pk fromAt toAt).map Row.sampledAt).Nodup := by
  have hsub : (table.filter fun row => row.rxPubkey = pk ∧ fromAt ≤ row.sampledAt ∧ row.sampledAt < toAt).Sublist
      (table.filter fun row => row.rxPubkey = pk) :=
    List.monotone_filter_right table fun row hrow => decide_eq_true (of_decide_eq_true hrow).1
  rw [window, ((List.perm_insertionSort _ _).map Row.sampledAt).nodup_iff]
  refine List.Nodup.sublist (hsub.map Row.sampledAt) ((h.map Row.sampledAt).nodup_iff.mpr ?_)
  rw [List.map_map]
  refine List.Nodup.map_on (fun s hs s' hs' hsame => ?_) htimes.of_map
  exact List.inj_on_of_nodup_map htimes hs hs' (stampMillis_inj hsame)

theorem pairwise_window (h : Holds table pk samples) (htimes : (samples.map Sample.time).Nodup) :
    (window table pk fromAt toAt).Pairwise fun a b => a.sampledAt < b.sampledAt := by
  have hsorted : (window table pk fromAt toAt).Pairwise fun a b => a.sampledAt ≤ b.sampledAt :=
    List.pairwise_insertionSort _ _
  have hdistinct : (window table pk fromAt toAt).Pairwise _ := List.pairwise_map.mp (nodup_window h htimes)
  exact hsorted.imp₂ (fun _ _ hle hne => lt_of_le_of_ne hle hne) hdistinct

theorem mem_zip_window (h : Holds table pk samples) (htimes : (samples.map Sample.time).Nodup) {p : Row P × Row P} :
    p ∈ (window table pk fromAt toAt).zip (window table pk fromAt toAt).tail ↔
      ∃ s s', Consecutive samples s s' ∧ InWindow fromAt toAt s ∧ InWindow fromAt toAt s' ∧
        (s.row pk, s'.row pk) = p := by
  obtain ⟨row, row'⟩ := p
  rw [mem_zip_tail_iff (r := fun a b => a.sampledAt < b.sampledAt) (fun _ => lt_irrefl _)
    (fun _ _ _ => lt_trans) (pairwise_window h htimes)]
  constructor
  · rintro ⟨hrow, hrow', hlt, hbetween⟩
    obtain ⟨s, hs, hin, rfl⟩ := (mem_window h).mp hrow
    obtain ⟨s', hs', hin', rfl⟩ := (mem_window h).mp hrow'
    refine ⟨s, s', ⟨hs, hs', (stampMillis_lt_sample s s').mp hlt, ?_⟩, hin, hin', rfl⟩
    rintro u hu ⟨hsu, hus'⟩
    have hsu' := (stampMillis_lt_sample s u).mpr hsu
    have hus := (stampMillis_lt_sample u s').mpr hus'
    have hinu : InWindow fromAt toAt u := ⟨hin.1.trans hsu'.le, hus.trans hin'.2⟩
    exact hbetween (u.row pk) ((mem_window h).mpr ⟨u, hu, hinu, rfl⟩) ⟨hsu', hus⟩
  · rintro ⟨s, s', hcons, hin, hin', heq⟩
    obtain ⟨rfl, rfl⟩ := Prod.mk.inj heq
    refine ⟨(mem_window h).mpr ⟨s, hcons.left, hin, rfl⟩, (mem_window h).mpr ⟨s', hcons.right, hin', rfl⟩,
      (stampMillis_lt_sample s s').mpr hcons.lt, ?_⟩
    rintro row hrow ⟨hlt, hlt'⟩
    obtain ⟨u, hu, -, rfl⟩ := (mem_window h).mp hrow
    exact hcons.between u hu ⟨(stampMillis_lt_sample s u).mp hlt, (stampMillis_lt_sample u s').mp hlt'⟩

theorem deltaRow_row (pk : String) (s s' : Sample radio P) : deltaRow (s.row pk) (s'.row pk) =
    if s'.uptimeMillis / 1000 ≤ s.uptimeMillis / 1000 then none
    else some ⟨stampMillis s'.time, s'.place, (sub (s'.time * 10 ^ 6) (s.time * 10 ^ 6)).tdiv (10 ^ 6),
      fun c => deltaOf ((s'.row pk).counter c) ((s.row pk).counter c)⟩ := by
  have ht : parseRFC3339 (s.row pk).sampledAt = some (s.time * 10 ^ 6) := parseRFC3339_stampMillis s.fourDigits
  have ht' : parseRFC3339 (s'.row pk).sampledAt = some (s'.time * 10 ^ 6) := parseRFC3339_stampMillis s'.fourDigits
  rw [deltaRow, ht, ht']
  exact if_congr Int.ofNat_le rfl rfl

theorem deltaOf_row {pk : String} {s s' : Sample radio P} (hboot : s'.boot = s.boot) (hlt : s.time < s'.time)
    {c : Counter} {n : Int} (h : deltaOf ((s'.row pk).counter c) ((s.row pk).counter c) = some n) :
    n = s'.boot.counter c s'.uptimeMillis - s.boot.counter c s.uptimeMillis := by
  have hmono : s.boot.counter c s.uptimeMillis ≤ s.boot.counter c s'.uptimeMillis := by
    apply s.boot.mono c
    rw [Sample.uptimeMillis, Sample.uptimeMillis, hboot]
    omega
  simp only [Sample.row, hboot] at h ⊢
  cases hcur : s'.reports c <;> cases hprev : s.reports c <;> simp [hcur, hprev, deltaOf] at h
  omega

/-- Each delta is one of two consecutive samples of a boot, and tells by how much each counter went up between
them. -/
def Right (samples : List (Sample radio P)) (deltas : List (ClientRfDelta P)) : Prop :=
  ∀ d ∈ deltas, ∃ s s', Consecutive samples s s' ∧ s.SameBoot s' ∧ d.sampledAt = stampMillis s'.time ∧
    ∀ c n, d.delta c = some n → n = s'.boot.counter c s'.uptimeMillis - s.boot.counter c s.uptimeMillis

/-- After a reboot the radio has not been up for longer than the sample before it said. -/
def RebootsShow (samples : List (Sample radio P)) (fromAt toAt : String) : Prop :=
  ∀ s s', Consecutive samples s s' → InWindow fromAt toAt s → InWindow fromAt toAt s' → ¬ s.SameBoot s' →
    s'.uptimeMillis / 1000 ≤ s.uptimeMillis / 1000

theorem Sample.SameBoot.boot_eq {s s' : Sample radio P} (h : s.SameBoot s') : s'.boot = s.boot := by
  have hrunning := s'.running
  rw [← show radio.begun s.time = radio.begun s'.time from h, s.running] at hrunning
  exact (Option.some.inj hrunning).symm

theorem mem_clientRfDeltas {rxPubkey : String} (htimes : (samples.map Sample.time).Nodup)
    (hholds : Holds table (toLower (trimSpace rxPubkey)) samples) {d : ClientRfDelta P} :
    d ∈ clientRfDeltas table rxPubkey fromAt toAt ↔
      ∃ s s', Consecutive samples s s' ∧ InWindow fromAt toAt s ∧ InWindow fromAt toAt s' ∧
        deltaRow (s.row (toLower (trimSpace rxPubkey))) (s'.row (toLower (trimSpace rxPubkey))) = some d := by
  rw [clientRfDeltas, List.mem_filterMap]
  constructor
  · rintro ⟨p, hp, hd⟩
    obtain ⟨s, s', hcons, hin, hin', rfl⟩ := (mem_zip_window hholds htimes).mp hp
    exact ⟨s, s', hcons, hin, hin', hd⟩
  · rintro ⟨s, s', hcons, hin, hin', hd⟩
    exact ⟨_, (mem_zip_window hholds htimes).mpr ⟨s, s', hcons, hin, hin', rfl⟩, hd⟩

theorem Right.hides {rxPubkey : String} (hright : Right samples (clientRfDeltas table rxPubkey fromAt toAt))
    (htimes : (samples.map Sample.time).Nodup) (hholds : Holds table (toLower (trimSpace rxPubkey)) samples)
    {s s' : Sample radio P} (hcons : Consecutive samples s s') (hin : InWindow fromAt toAt s)
    (hin' : InWindow fromAt toAt s') (hreboot : ¬ s.SameBoot s') : s'.uptimeMillis / 1000 ≤ s.uptimeMillis / 1000 := by
  by_contra hjump
  have hrow := deltaRow_row (toLower (trimSpace rxPubkey)) s s'
  rw [if_neg hjump] at hrow
  obtain ⟨t, t', hcons', hsame, hat, -⟩ :=
    hright _ ((mem_clientRfDeltas htimes hholds).mpr ⟨s, s', hcons, hin, hin', hrow⟩)
  have hright' : s'.time = t'.time := stampMillis_inj hat
  have hleft : s.time = t.time := hcons.time_left hcons' hright'
  refine hreboot ?_
  rw [Sample.SameBoot, hleft, hright']
  exact hsame

/-- The deltas are right if and only if every reboot in the window shows in the uptime. -/
theorem clientRfDeltas_right_iff (table : List (Row P)) (rxPubkey fromAt toAt : String)
    (samples : List (Sample radio P)) (htimes : (samples.map Sample.time).Nodup)
    (hholds : Holds table (toLower (trimSpace rxPubkey)) samples) :
    Right samples (clientRfDeltas table rxPubkey fromAt toAt) ↔ RebootsShow samples fromAt toAt := by
  constructor
  · intro hright s s' hcons hin hin' hreboot
    exact hright.hides htimes hholds hcons hin hin' hreboot
  · intro hshow d hd
    obtain ⟨s, s', hcons, hin, hin', hrow⟩ := (mem_clientRfDeltas htimes hholds).mp hd
    rw [deltaRow_row] at hrow
    obtain ⟨hup, hd⟩ := Option.ite_none_left_eq_some.mp hrow
    obtain rfl := Option.some.inj hd
    have hsame : s.SameBoot s' := by
      by_contra hreboot
      exact hup (hshow s s' hcons hin hin' hreboot)
    exact ⟨s, s', hcons, hsame, rfl, fun c n hn => deltaOf_row hsame.boot_eq hcons.lt hn⟩

theorem holds_rows (pk : String) (samples : List (Sample radio P)) :
    Holds (samples.map fun s => s.row pk) pk samples := by
  rw [Holds, List.filter_eq_self.mpr]
  intro row hrow
  obtain ⟨s, -, rfl⟩ := List.mem_map.mp hrow
  exact decide_eq_true rfl

end Samples

def bootAt (start : Int) : Boot where
  start
  counter _ n := n / 1000
  zero _ := rfl
  mono _ _ _ h := Nat.div_le_div_right h

def sampleAt (radio : Radio) (time : Int) (h : FourDigits time) (boot : Boot)
    (running : (radio.begun time).getLast? = some boot) : Sample radio Unit where
  time
  fourDigits := h
  reports _ := true
  place := ()
  boot
  running

def steady : Radio := ⟨[bootAt 0], by decide⟩

def steadySamples : List (Sample steady Unit) :=
  [sampleAt steady 2000 ⟨by decide, by decide⟩ (bootAt 0) rfl,
    sampleAt steady 30000 ⟨by decide, by decide⟩ (bootAt 0) rfl]

theorem clientRfDeltas_right_steady : Right steadySamples
    (clientRfDeltas (steadySamples.map fun s => s.row (toLower (trimSpace "aa"))) "aa" "" "9") := by
  refine (clientRfDeltas_right_iff _ "aa" "" "9" steadySamples (by decide) (holds_rows _ _)).mpr ?_
  intro s s' hcons _ _ hreboot
  have hrunning : ∀ u ∈ steadySamples, steady.begun u.time = [bootAt 0] := by
    intro u hu
    obtain rfl | rfl := List.mem_pair.mp hu <;> rfl
  exact absurd ((hrunning s hcons.left).trans (hrunning s' hcons.right).symm) hreboot

def rebooted : Radio := ⟨[bootAt 0, bootAt 10000], by decide⟩

def rebootedSamples : List (Sample rebooted Unit) :=
  [sampleAt rebooted 2000 ⟨by decide, by decide⟩ (bootAt 0) rfl,
    sampleAt rebooted 30000 ⟨by decide, by decide⟩ (bootAt 10000) rfl]

/-- Two seconds up before the reboot, and twenty after it. -/
theorem not_right_rebooted : ¬ Right rebootedSamples
    (clientRfDeltas (rebootedSamples.map fun s => s.row (toLower (trimSpace "aa"))) "aa" "" "9") := by
  intro hright
  have hcons : Consecutive rebootedSamples (sampleAt rebooted 2000 ⟨by decide, by decide⟩ (bootAt 0) rfl)
      (sampleAt rebooted 30000 ⟨by decide, by decide⟩ (bootAt 10000) rfl) := by
    refine ⟨List.mem_cons_self, List.mem_cons_of_mem _ List.mem_cons_self, by decide, fun u hu => ?_⟩
    obtain rfl | rfl := List.mem_pair.mp hu
    · exact fun h => absurd h.1 (by decide)
    · exact fun h => absurd h.2 (by decide)
  have hin : "" ≤ stampMillis 2000 ∧ stampMillis 2000 < "9" := by decide +kernel
  have hin' : "" ≤ stampMillis 30000 ∧ stampMillis 30000 < "9" := by decide +kernel
  have hreboot : rebooted.begun 2000 ≠ rebooted.begun 30000 := by
    intro hsame
    exact absurd (congrArg List.length hsame) (by decide)
  exact absurd (hright.hides (by decide) (holds_rows _ _) hcons hin hin' hreboot) (by decide)

end MeshcoreAnalyzer.RadioDeltas
