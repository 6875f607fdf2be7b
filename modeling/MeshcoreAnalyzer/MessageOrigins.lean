import MeshcoreAnalyzer.MessageRouter
import MeshcoreAnalyzer.Attribution
import MeshcoreAnalyzer.RegionTiers

namespace MeshcoreAnalyzer.MessageRouter

open GoBytes
open IngestTables (Tables Call Observer)
open IngestorDecoder (Payload DecodedPacket utf8 decodePacket)

/-! Where the rows of the tables come from, whatever the order of the messages and of the upkeep. -/

variable {w : World} {cfg : Config} {source : MQTTSource} {at_ : Moment} {m : Message} {msg : Object} {a : Write}

/-- The way that a statement of `handleMessage` is come by. -/
inductive Route (w : World) (cfg : Config) (source : MQTTSource) (at_ : Moment) (m : Message) (msg : Object) (a : Write) : Prop
  | client (h : a ∈ clientWrites w cfg m msg)
  | neighbors (hin : admitted w cfg m) (h : a ∈ handleNeighborsReport w (m.part 2) msg)
  | status (hin : admitted w cfg m) (h : a ∈ statusWrites w at_ m msg)
  | packet (hin : admitted w cfg m) (hfilter : passesIATAFilter source m)
      (h : a ∈ packetWrites w cfg source at_ m msg (text msg "raw"))
  | channel (hin : admitted w cfg m) (hfilter : passesIATAFilter source m) (htopic : m.under "meshcore/message/channel/")
      (h : a ∈ channelWrites w at_ m msg)
  | direct (hin : admitted w cfg m) (hfilter : passesIATAFilter source m) (htopic : m.under "meshcore/message/direct/")
      (h : a ∈ directWrites w at_ msg)

theorem route_of_mem (h : a ∈ handleMessage w cfg source at_ m) :
    ∃ msg, m.payload = some msg ∧ Route w cfg source at_ m msg a := by
  rw [handleMessage] at h
  cases hpayload : m.payload with
  | none => simp [hpayload] at h
  | some msg =>
      refine ⟨msg, rfl, ?_⟩
      simp only [hpayload] at h
      split at h
      · exact .client h
      split at h
      · simp at h
      split at h
      · simp at h
      next hadmitted =>
      have hin : admitted w cfg m := by simpa using hadmitted
      split at h
      · exact .neighbors hin h
      split at h
      · exact .status hin h
      split at h
      · simp at h
      next hpasses =>
      have hfilter : passesIATAFilter source m := by simpa using hpasses
      split at h
      · exact .packet hin hfilter h
      split at h
      · next htopic => exact .channel hin hfilter htopic h
      split at h
      · next htopic => exact .direct hin hfilter htopic h
      · simp at h

def Write.observer : Write → Option String
  | .table (.upsertObserver id ..) => some id
  | .table (.recordNaiveSkew id ..) => some id
  | .table (.insertMetrics row) => some row.observerID
  | .table (.insertDroppedPacket row) => some row.observerID
  | _ => none

theorem client_cases (h : a ∈ clientWrites w cfg m msg) :
    a = .clientPacket (m.part 2) msg ∨ a = .clientRfSample (m.part 2) msg := by
  rw [clientWrites] at h
  grind

theorem neighbors_cases {observerID : String} (h : a ∈ handleNeighborsReport w observerID msg) :
    ∃ pubkey scope reportedAt, a = .updateNodeConfiguredScope pubkey scope reportedAt := by
  rw [handleNeighborsReport] at h
  rcases List.mem_append.mp h with h | h
  · grind
  · split at h
    · obtain ⟨n, -, h⟩ := List.mem_flatMap.mp h
      rw [neighborReport.eq_def] at h
      grind
    · simp at h

theorem upsertObserverAt_cases {id name iata : String} {o : Option ObserverMeta}
    (h : a ∈ upsertObserverAt w at_ id name iata o) : a.observer = some id ∨ a = .table (.reactivate id) := by
  rcases List.mem_pair.mp h with rfl | rfl
  · exact .inl rfl
  · exact .inr rfl

theorem status_cases (h : a ∈ statusWrites w at_ m msg) :
    a.observer = some (m.part 2) ∨ a = .table (.reactivate (m.part 2)) ∨
      ∃ name iata c, a = .table (.upsertObserverRetained (m.part 2) name iata c) := by
  rw [statusWrites] at h
  split at h
  · exact .inr (.inr ⟨_, _, _, List.mem_singleton.mp h⟩)
  · rcases List.mem_append.mp h with h | h
    · rcases upsertObserverAt_cases h with h | h
      · exact .inl h
      · exact .inr (.inl h)
    · obtain ⟨o, -, rfl⟩ := by simpa using h
      exact .inl rfl

def decoded (w : World) (cfg : Config) (at_ : Moment) (msg : Object) : Go Frame.DecodeError DecodedPacket :=
  decodePacket w.crypto (utf8 (text msg "raw")) at_.channelKeys (shouldValidateSignatures cfg)

/-- An advert with a key that nothing is held against. -/
structure Accepted (w : World) (cfg : Config) (p : DecodedPacket) : Prop where
  keyed : isKeyedAdvert p
  valid : validateAdvert w p.payload = none
  signed : invalidSignature cfg p.payload = false
  inside : nodePassesGeoFilter w p.payload.lat p.payload.lon cfg.geoFilter ∨ isDropMode cfg = false

inductive Storing (w : World) (cfg : Config) (source : MQTTSource) (at_ : Moment) (m : Message) (msg : Object)
    (p : DecodedPacket) (a : Write) : Prop
  | packet (data : Ingest.PacketData) (h : buildPacket w source at_ m msg (text msg "raw") p = .ok data)
      (hdata : a = insertTransmission w at_ data)
  | node (data : Ingest.PacketData) (foreign : Bool) (h : buildPacket w source at_ m msg (text msg "raw") p = .ok data)
      (haccepted : Accepted w cfg p) (hnode : a ∈ nodeWrites w at_ p.payload foreign data)

theorem store_cases {p : DecodedPacket} (h : a ∈ (storeWrites w cfg source at_ m msg (text msg "raw") p).1) :
    a.observer = some (m.part 2) ∨ Storing w cfg source at_ m msg p a := by
  -- no packet is stored before one is built, so a build that fails leaves only the dropped packet
  have hstored : ∀ foreign, (isKeyedAdvert p → Accepted w cfg p) →
      ∀ data, buildPacket w source at_ m msg (text msg "raw") p = .ok data →
      a ∈ insertTransmission w at_ data :: (if isKeyedAdvert p then nodeWrites w at_ p.payload foreign data else []) →
      Storing w cfg source at_ m msg p a := by
    intro foreign hs data hdata hmem
    rcases List.mem_cons.mp hmem with rfl | hmem
    · exact .packet data hdata rfl
    · split at hmem
      · next hkeyed => exact .node data foreign hdata (hs hkeyed) hmem
      · simp at hmem
  rw [storeWrites] at h
  split at h
  · next hfree =>
      split at h
      · simp at h
      · next data hdata => exact .inr (hstored false (fun hkeyed => by simp [hkeyed] at hfree) data hdata h)
  split at h
  · simp at h
  next hvalid =>
  have hvalid : validateAdvert w p.payload = none := by simpa using hvalid
  split at h
  · split at h
    · simp at h
    · rw [List.mem_singleton.mp h]
      exact .inl rfl
  next hsigned =>
  have hsigned : invalidSignature cfg p.payload = false := by simpa using hsigned
  split at h
  · next hinside =>
      split at h
      · simp at h
      · next data hdata => exact .inr (hstored false (fun hkeyed => ⟨hkeyed, hvalid, hsigned, .inl hinside⟩) data hdata h)
  split at h
  · simp at h
  · next hdrop =>
      split at h
      · simp at h
      · next data hdata =>
          exact .inr (hstored true (fun hkeyed => ⟨hkeyed, hvalid, hsigned, .inr (by simpa using hdrop)⟩) data hdata h)

theorem packet_cases (h : a ∈ packetWrites w cfg source at_ m msg (text msg "raw")) :
    a.observer = some (m.part 2) ∨ a = .table (.reactivate (m.part 2)) ∨
      ∃ p, decoded w cfg at_ msg = .ok p ∧ Storing w cfg source at_ m msg p a := by
  rw [packetWrites] at h
  split at h
  · simp at h
  · next p hp =>
      rcases List.mem_append.mp h with h | h
      · rcases List.mem_append.mp h with h | h
        · rw [List.mem_singleton.mp (List.mem_ite_nil_right.mp h).2]
          exact .inl rfl
        · exact (store_cases h).imp id fun hs => .inr ⟨p, hp, hs⟩
      · exact (upsertObserverAt_cases (List.mem_ite_nil_right.mp h).2).imp id .inl

/-- A packet that a message brings: its content hash is that of the raw text, and its observer that of the
topic; a message of the bridge is of the bridge itself. -/
inductive Brings (w : World) (m : Message) (msg : Object) (data : Ingest.PacketData) : Prop
  | raw (hobserver : data.observerID = m.part 2)
      (hhash : ∃ hash, ContentHash.computeContentHash (ε := Unit) w.sha256 (utf8 (text msg "raw")) = .ok hash ∧
        data.hash = w.text hash)
  | bridge (htopic : m.under "meshcore/message/channel/" ∨ m.under "meshcore/message/direct/")
      (hobserver : data.observerID = companionID)

theorem buildPacket_brings {p : DecodedPacket} {data : Ingest.PacketData}
    (h : buildPacket w source at_ m msg (text msg "raw") p = .ok data) : Brings w m msg data := by
  simp only [buildPacket, StoredPath.buildPacketData, Functor.map, Except.map] at h
  split at h
  · cases h
  next pd hpd =>
  cases h
  simp only [bind, Except.bind] at hpd
  split at hpd
  · cases hpd
  split at hpd
  · cases hpd
  next hash hhash =>
  cases hpd
  exact .raw (w.text_utf8 _) ⟨hash, hhash, rfl⟩

theorem channel_cases (h : a ∈ channelWrites w at_ m msg) :
    ∃ data, a = insertTransmission w at_ data ∧ data.observerID = companionID := by
  obtain ⟨-, h⟩ := List.mem_ite_nil_left.mp h
  exact ⟨_, List.mem_singleton.mp h, rfl⟩

theorem direct_cases (h : a ∈ directWrites w at_ msg) :
    ∃ data, a = insertTransmission w at_ data ∧ data.observerID = companionID := by
  obtain ⟨-, h⟩ := List.mem_ite_nil_left.mp h
  exact ⟨_, List.mem_singleton.mp h, rfl⟩

/-- What an advert tells of the node of its key. -/
structure Tells (w : World) (p : DecodedPacket) (pubKey name role : String) (lat lon : Option Float) : Prop where
  pubKey : w.text p.payload.pubKey = pubKey
  name : w.text p.payload.name = name
  role : advertRole p.payload.flags = role
  lat : p.payload.lat.map w.float = lat
  lon : p.payload.lon.map w.float = lon

structure Delivery where
  source : MQTTSource
  at_ : Moment
  message : Message

def Delivery.writes (w : World) (cfg : Config) (d : Delivery) : List Write := handleMessage w cfg d.source d.at_ d.message

structure Delivery.From (w : World) (cfg : Config) (d : Delivery) (observerID : String) : Prop where
  admitted : admitted w cfg d.message
  observer : d.message.part 2 = observerID

/-- The message is let in, passes the filter of its source and brings the packet. -/
structure Delivery.Heard (w : World) (cfg : Config) (d : Delivery) (data : Ingest.PacketData) : Prop where
  admitted : admitted w cfg d.message
  passes : passesIATAFilter d.source d.message
  brings : ∃ msg, d.message.payload = some msg ∧ Brings w d.message msg data

/-- The message is let in, passes the filter of its source and is an advert that tells this of the node. -/
structure Delivery.Adverts (w : World) (cfg : Config) (d : Delivery) (pubKey name role : String) (lat lon : Option Float) :
    Prop where
  admitted : admitted w cfg d.message
  passes : passesIATAFilter d.source d.message
  tells : ∃ msg p, d.message.payload = some msg ∧ decoded w cfg d.at_ msg = .ok p ∧ Accepted w cfg p ∧
    Tells w p pubKey name role lat lon

variable {d : Delivery}

/-- Which of the statements come of a message that is let in, and of what in it. -/
inductive Delivery.Leads (w : World) (cfg : Config) (d : Delivery) (a : Write) : Prop
  | own (h : d.From w cfg (d.message.part 2)) (hobserver : a.observer = some (d.message.part 2))
  | packet (data : Ingest.PacketData) (h : d.Heard w cfg data) (hdata : a = insertTransmission w d.at_ data)
  | node (pubKey name role : String) (lat lon : Option Float) (lastSeen now : String)
      (h : d.Adverts w cfg pubKey name role lat lon) (hnode : a = .node (.upsertNode pubKey name role lat lon lastSeen now))
  | other (hobserver : a.observer = none) (hpacket : ∀ env data, a ≠ .table (.insertTransmission env data))
      (hnode : ∀ pubKey name role lat lon lastSeen now, a ≠ .node (.upsertNode pubKey name role lat lon lastSeen now))

theorem leads_other_table {b : IngestTables.Step} (hobserver : (Write.table b).observer = none)
    (hpacket : ∀ env data, b ≠ .insertTransmission env data) : d.Leads w cfg (.table b) :=
  .other hobserver (fun env data heq => hpacket env data (Write.table.inj heq)) (by simp)

theorem nodeWrites_leads {p : DecodedPacket} {foreign : Bool} {data : Ingest.PacketData}
    (hin : admitted w cfg d.message) (hpasses : passesIATAFilter d.source d.message) (hmsg : d.message.payload = some msg)
    (hp : decoded w cfg d.at_ msg = .ok p) (haccepted : Accepted w cfg p)
    (h : a ∈ nodeWrites w d.at_ p.payload foreign data) : d.Leads w cfg a := by
  simp only [nodeWrites, List.mem_append, List.mem_ite_nil_right, List.mem_singleton] at h
  rcases h with (((rfl | ⟨-, rfl⟩) | rfl) | ⟨-, rfl⟩) | ⟨-, rfl⟩
  · exact .node _ _ _ _ _ _ _ ⟨hin, hpasses, msg, p, hmsg, hp, haccepted, ⟨rfl, rfl, rfl, rfl, rfl⟩⟩ rfl
  all_goals exact .other rfl (by simp) (by simp)

theorem writes_lead (h : a ∈ d.writes w cfg) : d.Leads w cfg a := by
  obtain ⟨msg, hmsg, hroute⟩ := route_of_mem h
  cases hroute with
  | client h => rcases client_cases h with rfl | rfl <;> exact .other rfl (by simp) (by simp)
  | neighbors hin h =>
      obtain ⟨pubkey, scope, reportedAt, rfl⟩ := neighbors_cases h
      exact .other rfl (by simp) (by simp)
  | status hin h =>
      rcases status_cases h with h | rfl | ⟨name, iata, c, rfl⟩
      · exact .own ⟨hin, rfl⟩ h
      all_goals exact leads_other_table rfl (by simp)
  | packet hin hpasses h =>
      rcases packet_cases h with h | rfl | ⟨p, hp, hs⟩
      · exact .own ⟨hin, rfl⟩ h
      · exact leads_other_table rfl (by simp)
      · cases hs with
        | packet data h hdata => exact .packet data ⟨hin, hpasses, msg, hmsg, buildPacket_brings h⟩ hdata
        | node data foreign h haccepted hnode => exact nodeWrites_leads hin hpasses hmsg hp haccepted hnode
  | channel hin hpasses htopic h =>
      obtain ⟨data, rfl, hobserver⟩ := channel_cases h
      exact .packet data ⟨hin, hpasses, msg, hmsg, .bridge (.inl htopic) hobserver⟩ rfl
  | direct hin hpasses htopic h =>
      obtain ⟨data, rfl, hobserver⟩ := direct_cases h
      exact .packet data ⟨hin, hpasses, msg, hmsg, .bridge (.inr htopic) hobserver⟩ rfl

structure Store where
  database : IngestTables.State
  nodes : NodeTables.State

def Store.perform (s : Store) : Write → Store
  | .table a => { s with database := s.database.step a }
  | .node a => { s with nodes := s.nodes.step a }
  | .updateNodeConfiguredScope pubkey scope reportedAt =>
      { s with nodes := { s.nodes with tables := s.nodes.tables.updateNodeConfiguredScope pubkey scope reportedAt } }
  | .restart => ⟨s.database.step .restart, { s.nodes with relayTouched := .empty }⟩
  | _ => s

inductive Upkeep
  | next (ok : Bool)
  | softDeleteBlacklistedObservers (blacklist : List String)
  | markStale (cutoff : String)
  | deleteInactiveMetrics
  | purgeStaleObservers (cutoff : String)
  | pruneOldMetrics (cutoff : String)
  | pruneOldPackets (cutoff : String)
  | pruneDroppedPackets (cutoff : String)
  | touchRelayNodes (pubkeys : List String) (rxTime : String)
  | moveStaleNodes (cutoff : String)
  | deleteNodes (pubkeys : List String)
  | persistMultibyte (entries : List NodeTables.Entry)

def Upkeep.write : Upkeep → Write
  | .next ok => .table (.next ok)
  | .softDeleteBlacklistedObservers blacklist => .table (.softDeleteBlacklistedObservers blacklist)
  | .markStale cutoff => .table (.markStale cutoff)
  | .deleteInactiveMetrics => .table .deleteInactiveMetrics
  | .purgeStaleObservers cutoff => .table (.purgeStaleObservers cutoff)
  | .pruneOldMetrics cutoff => .table (.pruneOldMetrics cutoff)
  | .pruneOldPackets cutoff => .table (.pruneOldPackets cutoff)
  | .pruneDroppedPackets cutoff => .table (.pruneDroppedPackets cutoff)
  | .touchRelayNodes pubkeys rxTime => .node (.touchRelayNodes pubkeys rxTime)
  | .moveStaleNodes cutoff => .node (.moveStaleNodes cutoff)
  | .deleteNodes pubkeys => .node (.deleteNodes pubkeys)
  | .persistMultibyte entries => .node (.persistMultibyte entries)

/-- `pending` is what is left of the calls of `handleMessage`. -/
structure State where
  store : Store
  pending : List (List Write)

/-- The call of `InsertTransmission` that holds the lock has to end first. -/
def Write.waits (s : Store) : Write → Bool
  | .table (.insertTransmission ..) => s.database.holder.isSome
  | _ => false

/-- A statement of a call may fail, and a call may be on while its packet is still being inserted, which
allows more orders than there are. -/
inductive Action
  | deliver (d : Delivery)
  | proceed (i : Nat) (ok : Bool)
  | upkeep (u : Upkeep)
  | restart

namespace State

def step (w : World) (cfg : Config) (s : State) : Action → State
  | .deliver d => { s with pending := s.pending ++ [d.writes w cfg] }
  | .proceed i ok =>
      match s.pending[i]? with
      | some (a :: rest) =>
          if a.waits s.store then s else ⟨if ok then s.store.perform a else s.store, s.pending.set i rest⟩
      | _ => s
  | .upkeep u => { s with store := s.store.perform u.write }
  | .restart => ⟨s.store.perform .restart, []⟩

def run (w : World) (cfg : Config) (s : State) (actions : List Action) : State := actions.foldl (step w cfg) s

def boot (tables : Tables) (nodes : ConfiguredScope.Tables) : State := ⟨⟨⟨tables, none⟩, ⟨nodes, .empty⟩⟩, []⟩

end State

inductive Occurs (w : World) (cfg : Config) (deliveries : List Delivery) (a : Write) : Prop
  | upkeep (u : Upkeep) (h : a = u.write)
  | restart (h : a = .restart)
  | message (d : Delivery) (hd : d ∈ deliveries) (h : a ∈ d.writes w cfg)

def delivered (actions : List Action) : List Delivery :=
  actions.filterMap fun
    | .deliver d => some d
    | _ => none

def Pending (w : World) (cfg : Config) (deliveries : List Delivery) (s : State) : Prop :=
  ∀ call ∈ s.pending, ∀ a ∈ call, ∃ d ∈ deliveries, a ∈ d.writes w cfg

variable {s : State} {deliveries : List Delivery}

theorem step_trace (h : Pending w cfg deliveries s) (act : Action) (hact : ∀ d, act = .deliver d → d ∈ deliveries) :
    ∃ ws : List Write, (s.step w cfg act).store = ws.foldl Store.perform s.store ∧
      (∀ a ∈ ws, Occurs w cfg deliveries a) ∧ Pending w cfg deliveries (s.step w cfg act) := by
  cases act with
  | deliver d =>
      refine ⟨[], rfl, by simp, ?_⟩
      intro call hcall a ha
      rcases List.mem_append.mp hcall with hcall | hcall
      · exact h call hcall a ha
      · rw [List.mem_singleton.mp hcall] at ha
        exact ⟨d, hact d rfl, ha⟩
  | proceed i ok =>
      simp only [State.step]
      split
      · next a rest hcall =>
          have hpending := h _ (List.mem_of_getElem? hcall)
          split
          · exact ⟨[], rfl, by simp, h⟩
          · have hleft : Pending w cfg deliveries ⟨if ok then s.store.perform a else s.store, s.pending.set i rest⟩ := by
              intro call hcall' b hb
              rcases List.mem_or_eq_of_mem_set hcall' with hcall' | rfl
              · exact h call hcall' b hb
              · exact hpending b (List.mem_cons_of_mem a hb)
            cases ok with
            | false => exact ⟨[], rfl, by simp, hleft⟩
            | true =>
                obtain ⟨d, hd, ha⟩ := hpending a List.mem_cons_self
                refine ⟨[a], rfl, ?_, hleft⟩
                intro b hb
                rw [List.mem_singleton.mp hb]
                exact .message d hd ha
      · exact ⟨[], rfl, by simp, h⟩
  | upkeep u =>
      refine ⟨[u.write], rfl, ?_, h⟩
      intro b hb
      exact .upkeep u (List.mem_singleton.mp hb)
  | restart =>
      refine ⟨[.restart], rfl, ?_, by simp [Pending, State.step]⟩
      intro b hb
      exact .restart (List.mem_singleton.mp hb)

theorem run_trace (h : Pending w cfg deliveries s) (actions : List Action) (hactions : ∀ d, .deliver d ∈ actions → d ∈ deliveries) :
    ∃ ws : List Write, (s.run w cfg actions).store = ws.foldl Store.perform s.store ∧ ∀ a ∈ ws, Occurs w cfg deliveries a := by
  induction actions generalizing s with
  | nil => exact ⟨[], rfl, by simp⟩
  | cons act actions ih =>
      obtain ⟨ws, hstore, hws, hpending⟩ := step_trace h act fun d hd => hactions d (by simp [hd])
      obtain ⟨ws', hstore', hws'⟩ := ih hpending fun d hd => hactions d (List.mem_cons_of_mem act hd)
      refine ⟨ws ++ ws', ?_, ?_⟩
      · rw [List.foldl_append, ← hstore, ← hstore']
        rfl
      · intro a ha
        rcases List.mem_append.mp ha with ha | ha
        · exact hws a ha
        · exact hws' a ha

theorem mem_delivered {actions : List Action} : d ∈ delivered actions ↔ .deliver d ∈ actions := by
  simp only [delivered, List.mem_filterMap]
  constructor
  · rintro ⟨act, hact, heq⟩
    cases act with
    | deliver d' => exact Option.some.inj heq ▸ hact
    | proceed i ok => cases heq
    | upkeep u => cases heq
    | restart => cases heq
  · exact fun h => ⟨_, h, rfl⟩

theorem boot_trace (w : World) (cfg : Config) (tables : Tables) (nodes : ConfiguredScope.Tables) (actions : List Action) :
    ∃ ws : List Write, ((State.boot tables nodes).run w cfg actions).store =
        ws.foldl Store.perform (State.boot tables nodes).store ∧ ∀ a ∈ ws, Occurs w cfg (delivered actions) a :=
  run_trace (by simp [Pending, State.boot]) actions fun _ hd => mem_delivered.mpr hd

/-- Rows of observers, samples and drops are those that there were, or of the observer that is named. -/
structure Grows (named : Option String) (t t' : Tables) : Prop where
  observers : ∀ o ∈ t'.observers, o.id ∈ t.observers.map Observer.id ∨ named = some o.id
  samples : ∀ r ∈ t'.observerMetrics, r ∈ t.observerMetrics ∨ named = some r.observerID
  drops : ∀ r ∈ t'.droppedPackets, r ∈ t.droppedPackets ∨ named = some r.observerID

variable {t t' : Tables} {named : Option String}

theorem Grows.refl (named : Option String) (t : Tables) : Grows named t t :=
  ⟨fun _ ho => .inl (List.mem_map_of_mem ho), fun _ hr => .inl hr, fun _ hr => .inl hr⟩

theorem Grows.of_ids (hobservers : t'.observers.map Observer.id = t.observers.map Observer.id)
    (hsamples : t'.observerMetrics = t.observerMetrics) (hdrops : t'.droppedPackets = t.droppedPackets) : Grows named t t' :=
  ⟨fun _ ho => .inl (hobservers ▸ List.mem_map_of_mem ho), fun _ hr => .inl (hsamples ▸ hr), fun _ hr => .inl (hdrops ▸ hr)⟩

theorem Grows.of_subset (hobservers : t'.observers ⊆ t.observers) (hsamples : t'.observerMetrics ⊆ t.observerMetrics)
    (hdrops : t'.droppedPackets ⊆ t.droppedPackets) : Grows named t t' :=
  ⟨fun _ ho => .inl (List.mem_map_of_mem (hobservers ho)), fun _ hr => .inl (hsamples hr), fun _ hr => .inl (hdrops hr)⟩

theorem grows_update (t : Tables) (p : Observer → Bool) (f : Observer → Observer) (hid : ∀ o, (f o).id = o.id) :
    Grows named t { t with observers := Upserts.update p f t.observers } :=
  .of_ids (Upserts.map_update (fun o _ => hid o) t.observers) rfl rfl

theorem grows_upsert (t : Tables) (merge : Observer → Observer) (row : Observer) (hid : ∀ o, (merge o).id = o.id)
    (hrow : named = some row.id) : Grows named t { t with observers := Upserts.upsert (fun o => some o.id) merge row t.observers } where
  observers := by
    intro o ho
    have hmap : (Upserts.upsert (fun o => some o.id) merge row t.observers).map Observer.id = _ :=
      Upserts.map_upsert hid row t.observers
    have hmem := hmap ▸ List.mem_map_of_mem (f := Observer.id) ho
    split at hmem
    · exact .inl hmem
    · rcases List.mem_append.mp hmem with hmem | hmem
      · exact .inl hmem
      · exact .inr (hrow.trans (congrArg some (List.mem_singleton.mp hmem).symm))
  samples _ hr := .inl hr
  drops _ hr := .inl hr

theorem next_grows (c : Call) (ok : Bool) (t : Tables) : Grows named t (c.next ok t).2 := by
  obtain ⟨env, data, stage⟩ := c
  cases stage with
  | looking => exact .refl named t
  | found existing =>
      cases existing with
      | some e =>
          simp only [Call.next]
          split
          · exact .of_ids rfl rfl rfl
          · exact .refl named t
      | none =>
          simp only [Call.next]
          split
          · next t' ht' =>
              split at ht'
              · rw [Tables.insertTx] at ht'
                split at ht'
                · cases ht'
                · cases ht'
                  exact .of_ids rfl rfl rfl
              · cases ht'
          · exact .refl named t
  | recorded txID => exact .refl named t
  | resolved txID observerIdx =>
      cases observerIdx with
      | none => exact .refl named t
      | some rowid =>
          simp only [Call.next]
          split
          · exact grows_update t _ _ fun _ => rfl
          · exact .refl named t
  | touched txID observerIdx =>
      cases ok with
      | false => exact .refl named t
      | true => exact .of_ids rfl rfl rfl
  | observed txID =>
      simp only [Call.next]
      split
      · exact .of_ids rfl rfl rfl
      · exact .refl named t

theorem grows_locked {s : IngestTables.State} {f : Tables → Tables} (hf : Grows named s.tables (f s.tables)) :
    Grows named s.tables (s.locked f).tables := by
  rw [IngestTables.State.locked]
  split
  · exact hf
  · exact .refl named s.tables

theorem step_grows (s : IngestTables.State) (b : IngestTables.Step) :
    Grows (Write.table b).observer s.tables (s.step b).tables := by
  cases b with
  | insertTransmission env data =>
      rw [IngestTables.State.step]
      split <;> exact .refl _ _
  | next ok =>
      cases hc : s.holder with
      | none =>
          simp only [IngestTables.State.step, hc]
          exact .refl _ _
      | some c =>
          simp only [IngestTables.State.step, hc]
          exact next_grows c ok s.tables
  | restart => exact .refl _ _
  | upsertObserver id name iata lastSeen ingestNow c => exact grows_upsert s.tables _ _ (fun _ => rfl) rfl
  | reactivate id => exact grows_update s.tables _ _ fun _ => rfl
  | upsertObserverRetained id name iata c => exact grows_update s.tables _ _ fun _ => rfl
  | recordNaiveSkew observerID deltaSec nowStr cutoff =>
      simp only [IngestTables.State.step, IngestTables.State.write, Tables.recordNaiveSkew, Write.observer]
      split
      · exact .refl _ _
      · exact grows_upsert s.tables _ _ (fun _ => rfl) rfl
  | insertMetrics row =>
      refine ⟨fun _ ho => .inl (List.mem_map_of_mem ho), fun r hr => ?_, fun _ hr => .inl hr⟩
      rcases List.mem_append.mp hr with hr | hr
      · exact .inl (List.filter_subset_self _ hr)
      · exact .inr (List.mem_singleton.mp hr ▸ rfl)
  | insertDroppedPacket row =>
      refine ⟨fun _ ho => .inl (List.mem_map_of_mem ho), fun _ hr => .inl hr, fun r hr => ?_⟩
      rcases List.mem_append.mp hr with hr | hr
      · exact .inl hr
      · exact .inr (List.mem_singleton.mp hr ▸ rfl)
  | pruneDroppedPackets cutoff => exact .of_subset (fun _ h => h) (fun _ h => h) (List.filter_subset_self _)
  | softDeleteBlacklistedObservers blacklist => exact grows_update s.tables _ _ fun _ => rfl
  | markStale cutoff => exact grows_locked (grows_update s.tables _ _ fun _ => rfl)
  | deleteInactiveMetrics => exact grows_locked (.of_subset (fun _ h => h) (List.filter_subset_self _) fun _ h => h)
  | purgeStaleObservers cutoff => exact grows_locked (.of_subset (List.filter_subset_self _) (fun _ h => h) fun _ h => h)
  | pruneOldMetrics cutoff => exact grows_locked (.of_subset (fun _ h => h) (List.filter_subset_self _) fun _ h => h)
  | pruneOldPackets cutoff => exact grows_locked (.of_ids rfl rfl rfl)

theorem perform_grows (s : Store) (a : Write) : Grows a.observer s.database.tables (s.perform a).database.tables := by
  cases a with
  | table b => exact step_grows s.database b
  | _ => exact .refl _ _

theorem occurs_observer {id : String} (h : Occurs w cfg deliveries a) (hid : a.observer = some id) :
    ∃ d ∈ deliveries, d.From w cfg id := by
  cases h with
  | upkeep u h => cases u <;> simp [h, Upkeep.write, Write.observer] at hid
  | restart h => simp [h, Write.observer] at hid
  | message d hd h =>
      cases writes_lead h with
      | own hfrom hobserver => exact ⟨d, hd, Option.some.inj (hobserver.symm.trans hid) ▸ hfrom⟩
      | packet data hheard hdata => simp [hdata, insertTransmission, Write.observer] at hid
      | node pubKey name role lat lon lastSeen now hadverts hnode => simp [hnode, Write.observer] at hid
      | other hobserver hpacket hnode => simp [hobserver] at hid

structure Untouched (id : String) (t : Tables) : Prop where
  observers : ∀ o ∈ t.observers, o.id ≠ id
  samples : ∀ r ∈ t.observerMetrics, r.observerID ≠ id
  drops : ∀ r ∈ t.droppedPackets, r.observerID ≠ id

/-- The rows are those that there were, or of observers that a message names that is let in. -/
structure Known (w : World) (cfg : Config) (deliveries : List Delivery) (t t' : Tables) : Prop where
  observers : ∀ o ∈ t'.observers, o.id ∈ t.observers.map Observer.id ∨ ∃ d ∈ deliveries, d.From w cfg o.id
  samples : ∀ r ∈ t'.observerMetrics, r ∈ t.observerMetrics ∨ ∃ d ∈ deliveries, d.From w cfg r.observerID
  drops : ∀ r ∈ t'.droppedPackets, r ∈ t.droppedPackets ∨ ∃ d ∈ deliveries, d.From w cfg r.observerID

/-- So there is none of an observer that is kept out. -/
structure Traced (w : World) (cfg : Config) (deliveries : List Delivery) (t t' : Tables) : Prop extends
    Known w cfg deliveries t t' where
  refused : ∀ id ≠ "", isObserverBlacklisted w cfg id → Untouched id t → Untouched id t'

theorem not_blacklisted_of_from {id : String} (h : d.From w cfg id) (hid : id ≠ "") : isObserverBlacklisted w cfg id = false := by
  have hlen : 2 < d.message.parts.length := by
    by_contra hle
    have hpart : d.message.part 2 = "" := by simp [Message.part, List.getElem?_eq_none (Nat.not_lt.mp hle)]
    exact hid (h.observer.symm.trans hpart)
  have hin := h.admitted
  simp only [admitted, hlen, decide_true, Bool.true_and, h.observer, Bool.and_eq_true, Bool.not_eq_true'] at hin
  exact hin.1

theorem Known.grow {t'' : Tables} (h : Known w cfg deliveries t t') (hgrows : Grows named t' t'')
    (hnamed : ∀ id, named = some id → ∃ d ∈ deliveries, d.From w cfg id) : Known w cfg deliveries t t'' where
  observers := by
    intro o ho
    rcases hgrows.observers o ho with hold | heq
    · obtain ⟨o', ho', hid⟩ := List.mem_map.mp hold
      exact hid ▸ h.observers o' ho'
    · exact .inr (hnamed _ heq)
  samples := fun r hr => (hgrows.samples r hr).elim (h.samples r) fun heq => .inr (hnamed _ heq)
  drops := fun r hr => (hgrows.drops r hr).elim (h.drops r) fun heq => .inr (hnamed _ heq)

theorem Known.refused (h : Known w cfg deliveries t t') {id : String} (hid : id ≠ "") (hlisted : isObserverBlacklisted w cfg id)
    (hfree : Untouched id t) : Untouched id t' := by
  have hnone : ∀ {x : String}, (∃ d ∈ deliveries, d.From w cfg x) → x ≠ id := by
    rintro x ⟨d, -, hfrom⟩ rfl
    rw [not_blacklisted_of_from hfrom hid] at hlisted
    cases hlisted
  constructor
  · intro o ho
    rcases h.observers o ho with hold | hfrom
    · obtain ⟨o', ho', heq⟩ := List.mem_map.mp hold
      exact heq ▸ hfree.observers o' ho'
    · exact hnone hfrom
  · exact fun r hr => (h.samples r hr).elim (hfree.samples r) hnone
  · exact fun r hr => (h.drops r hr).elim (hfree.drops r) hnone

/-- Whatever messages come, in whatever order their statements run among the upkeep. -/
theorem traced (w : World) (cfg : Config) (tables : Tables) (nodes : ConfiguredScope.Tables) (actions : List Action) :
    Traced w cfg (delivered actions) tables ((State.boot tables nodes).run w cfg actions).store.database.tables := by
  obtain ⟨ws, hstore, hws⟩ := boot_trace w cfg tables nodes actions
  rw [hstore]
  have hknown : Known w cfg (delivered actions) tables (ws.foldl Store.perform (State.boot tables nodes).store).database.tables := by
    refine Runs.foldl_invariant (I := fun s : Store => Known w cfg (delivered actions) tables s.database.tables) ?_ ?_
    · exact ⟨fun _ ho => .inl (List.mem_map_of_mem ho), fun _ hr => .inl hr, fun _ hr => .inl hr⟩
    · exact fun s a ha h => h.grow (perform_grows s a) fun _ hid => occurs_observer (hws a ha) hid
  exact ⟨hknown, fun _ hid hlisted => hknown.refused hid hlisted⟩

theorem run_database (ws : List Write) (s : Store) :
    ∃ steps, (ws.foldl Store.perform s).database = s.database.run steps ∧
      ∀ b ∈ steps, .table b ∈ ws ∨ b = .restart := by
  induction ws generalizing s with
  | nil => exact ⟨[], rfl, by simp⟩
  | cons a ws ih =>
      obtain ⟨steps, hrun, hsteps⟩ := ih (s.perform a)
      have hlater : ∀ b ∈ steps, .table b ∈ a :: ws ∨ b = .restart :=
        fun b hb => (hsteps b hb).imp (List.mem_cons_of_mem a) id
      cases a with
      | table b =>
          refine ⟨b :: steps, hrun, ?_⟩
          intro b' hb'
          rcases List.mem_cons.mp hb' with rfl | hb'
          · exact .inl List.mem_cons_self
          · exact hlater b' hb'
      | restart =>
          refine ⟨.restart :: steps, hrun, ?_⟩
          intro b' hb'
          rcases List.mem_cons.mp hb' with rfl | hb'
          · exact .inr rfl
          · exact hlater b' hb'
      | _ => exact ⟨steps, hrun, hlater⟩

theorem occurs_insert {env : Ingest.Env} {data : Ingest.PacketData}
    (h : Occurs w cfg deliveries (.table (.insertTransmission env data))) : ∃ d ∈ deliveries, d.Heard w cfg data := by
  cases h with
  | upkeep u h => cases u <;> cases h
  | restart h => cases h
  | message d hd h =>
      cases writes_lead h with
      | own hfrom hobserver => cases hobserver
      | packet data hheard hdata =>
          cases hdata
          exact ⟨d, hd, hheard⟩
      | node pubKey name role lat lon lastSeen now hadverts hnode => cases hnode
      | other hobserver hpacket hnode => exact absurd rfl (hpacket env data)

/-- Each observation made since is of a packet that a message brought, and of the observer that the message
names, or of none. -/
def Credited (w : World) (cfg : Config) (deliveries : List Delivery) (t t' : Tables) : Prop :=
  ∀ o ∈ t'.observations, t.obsSeq < o.id → ∃ d ∈ deliveries, ∃ data, d.Heard w cfg data ∧ t'.hashOf o = some data.hash ∧
    ∀ id ∈ t'.observerOf o, id = data.observerID

theorem credited (w : World) (cfg : Config) {tables : Tables} (h : tables.register.Sound) (nodes : ConfiguredScope.Tables)
    (actions : List Action) :
    Credited w cfg (delivered actions) tables ((State.boot tables nodes).run w cfg actions).store.database.tables := by
  obtain ⟨ws, hstore, hws⟩ := boot_trace w cfg tables nodes actions
  obtain ⟨steps, hrun, hsteps⟩ := run_database ws (State.boot tables nodes).store
  have hsound : IngestTables.State.Sound (State.boot tables nodes).store.database := ⟨h, by simp [State.boot]⟩
  have hstart := hsound.credit_start (P := fun data => ∃ d ∈ delivered actions, d.Heard w cfg data) (by simp [State.boot])
  have hend : ((State.boot tables nodes).store.database.run steps).Credited (fun data => ∃ d ∈ delivered actions, d.Heard w cfg data)
      tables.obsSeq := by
    refine Runs.foldl_invariant hstart fun s b hb hs => hs.step b fun env data heq => ?_
    rcases hsteps b hb with hb | hb
    · exact occurs_insert (hws _ (heq ▸ hb))
    · exact absurd (heq.symm.trans hb) (by simp)
  rw [hstore, hrun]
  intro o ho hlt
  obtain ⟨hash, hhash, data, ⟨d, hd, hheard⟩, rfl, hobserver⟩ := hend.credits (Tables.entryOf o) (List.mem_map_of_mem ho) hlt
  rw [Tables.subjectOf_register] at hhash
  rw [Tables.sourceOf_register] at hobserver
  exact ⟨d, hd, data, hheard, hhash, hobserver⟩

def textOf (bs : Bytes) : String := (String.fromUTF8? ⟨bs.toArray⟩).getD ""

theorem textOf_utf8 (s : String) : textOf (utf8 s) = s := by
  have hbytes : (⟨(utf8 s).toArray⟩ : ByteArray) = s.toUTF8 := rfl
  have hvalid : s.toUTF8.IsValidUTF8 := s.isValidUTF8
  rw [textOf, hbytes, String.fromUTF8?, dif_pos hvalid]
  rfl

def plainWorld : World where
  toLower := id
  toUpper := id
  parseFloat _ := none
  number _ := 0
  round _ := 0
  truncate _ := 0
  display _ := ""
  marshal _ := ""
  fixed _ := ""
  text := textOf
  text_utf8 := textOf_utf8
  float _ := 0
  sha256 := id
  crypto := RegionKeys.zeroSums
  floatText _ := ""
  distToSegmentKm _ _ _ _ := 0
  resolvedJSON _ := ""

def openConfig : Config := ⟨[], [], none, none, none, false, false, false⟩

def bridgeMessage : Delivery where
  source := ⟨[], ""⟩
  at_ := ⟨0, "", "", [], ⟨[], []⟩, []⟩
  message := ⟨"meshcore/message/direct/A", false, some [("text", .str "hi")]⟩

def packetMessage : Delivery where
  source := ⟨[], ""⟩
  at_ := ⟨0, "", "", [], ⟨[], []⟩, []⟩
  message := ⟨"meshcore/SJC/B/packets", false, some [("raw", .str "11404142")]⟩

def bridged : List Action :=
  [.deliver bridgeMessage, .deliver packetMessage, .proceed 0 true] ++ List.replicate 6 (.upkeep (.next true)) ++
    List.replicate 3 (.proceed 1 true) ++ List.replicate 6 (.upkeep (.next true))

theorem credited_bridged :
    ((State.boot Tables.empty ConfiguredScope.Tables.empty).run plainWorld openConfig bridged).store.database.tables.observations.map
        (fun o => o.id) = [1, 2] ∧
      Credited plainWorld openConfig [bridgeMessage, packetMessage] Tables.empty
        ((State.boot Tables.empty ConfiguredScope.Tables.empty).run plainWorld openConfig bridged).store.database.tables :=
  ⟨by decide +kernel,
    credited plainWorld openConfig IngestTables.sound_empty.register ConfiguredScope.Tables.empty bridged⟩

end MeshcoreAnalyzer.MessageRouter
