import MeshcoreAnalyzer.MessageOrigins

namespace MeshcoreAnalyzer.MessageRouter

open ConfiguredScope (NodeRow updateRow)
open NodeTables (touchRow touchRelayNodesLocked deleteBatch deleteNodesByPubkeys persistEntry runMultibyteCapPersist)

variable {w : World} {cfg : Config} {deliveries : List Delivery} {a : Write} {t t' t'' : ConfiguredScope.Tables}

def Has (t : ConfiguredScope.Tables) (pk : String) (row : NodeRow) : Prop := t.nodes pk = some row ∨ t.inactiveNodes pk = some row

structure Alike (row row' : NodeRow) : Prop where
  name : row'.name = row.name
  role : row'.role = row.role
  lat : row'.lat = row.lat
  lon : row'.lon = row.lon

theorem Alike.refl (row : NodeRow) : Alike row row := ⟨rfl, rfl, rfl, rfl⟩

theorem Alike.trans {row row' row'' : NodeRow} (h : Alike row row') (h' : Alike row' row'') : Alike row row'' :=
  ⟨h'.name.trans h.name, h'.role.trans h.role, h'.lat.trans h.lat, h'.lon.trans h.lon⟩

/-- What is said of a node was said before. -/
def Keeps (t t' : ConfiguredScope.Tables) : Prop := ∀ pk row, Has t' pk row → ∃ row', Has t pk row' ∧ Alike row' row

theorem Keeps.refl (t : ConfiguredScope.Tables) : Keeps t t := fun _ row h => ⟨row, h, .refl row⟩

theorem Keeps.trans (h : Keeps t t') (h' : Keeps t' t'') : Keeps t t'' := by
  intro pk row hrow
  obtain ⟨row', hrow', halike'⟩ := h' pk row hrow
  obtain ⟨row'', hrow'', halike''⟩ := h pk row' hrow'
  exact ⟨row'', hrow'', halike''.trans halike'⟩

theorem updateRow_alike {pubkey pk : String} {f : NodeRow → NodeRow} (hf : ∀ row, Alike row (f row)) {table : String → Option NodeRow}
    {row : NodeRow} (h : updateRow pubkey f table pk = some row) : ∃ row', table pk = some row' ∧ Alike row' row := by
  by_cases hpk : pubkey = pk
  · subst hpk
    rw [ConfiguredScope.updateRow_self] at h
    obtain ⟨row', hrow', rfl⟩ := Option.map_eq_some_iff.mp h
    exact ⟨row', hrow', hf row'⟩
  · rw [ConfiguredScope.updateRow_of_ne hpk] at h
    exact ⟨row, h, .refl row⟩

theorem keeps_updateRow (t : ConfiguredScope.Tables) (pubkey : String) {f : NodeRow → NodeRow} (hf : ∀ row, Alike row (f row)) :
    Keeps t { t with nodes := updateRow pubkey f t.nodes } := by
  rintro pk row (h | h)
  · obtain ⟨row', hrow', halike⟩ := updateRow_alike hf h
    exact ⟨row', .inl hrow', halike⟩
  · exact ⟨row, .inr h, .refl row⟩

theorem keeps_configure (t : ConfiguredScope.Tables) (pubkey scope reportedAt : String) :
    Keeps t (t.updateNodeConfiguredScope pubkey scope reportedAt) := by
  have hf : ∀ row : NodeRow, Alike row (row.configure (ConfiguredScope.normalizeScopeList scope)
      (ConfiguredScope.normalizeReportTS reportedAt)) := fun row => ⟨rfl, rfl, rfl, rfl⟩
  simp only [ConfiguredScope.Tables.updateNodeConfiguredScope]
  split
  · exact .refl t
  split
  · exact .refl t
  · rintro pk row (h | h)
    · obtain ⟨row', hrow', halike⟩ := updateRow_alike hf h
      exact ⟨row', .inl hrow', halike⟩
    · obtain ⟨row', hrow', halike⟩ := updateRow_alike hf h
      exact ⟨row', .inr hrow', halike⟩

theorem touchRow_alike (seen : String) (row : NodeRow) : Alike row (touchRow seen row) := by
  rw [touchRow]
  split
  · exact ⟨rfl, rfl, rfl, rfl⟩
  · exact .refl row

theorem keeps_touchRelayNodesLocked (pubkeys : List String) (rxTime : String) (s : NodeTables.State) :
    Keeps s.tables (touchRelayNodesLocked pubkeys rxTime s).tables := by
  apply NodeTables.touchRelayNodesLocked_induction pubkeys rxTime (.refl s.tables)
  intro stamp pk t ht
  exact ht.trans (keeps_updateRow t pk (touchRow_alike stamp))

theorem keeps_moveStaleNodes (t : ConfiguredScope.Tables) (cutoff : String) : Keeps t (t.moveStaleNodes cutoff) := by
  rintro pk row (h | h)
  · exact ⟨row, .inl (Option.filter_eq_some_iff.mp h).1, .refl row⟩
  · rcases Option.or_eq_some_iff.mp h with h | ⟨-, h⟩
    · exact ⟨row, .inl (Option.filter_eq_some_iff.mp h).1, .refl row⟩
    · exact ⟨row, .inr h, .refl row⟩

theorem keeps_deleteBatch (t : ConfiguredScope.Tables) (batch : List String) : Keeps t (deleteBatch t batch) := by
  rintro pk row (h | h)
  · simp only [deleteBatch, Option.ite_none_left_eq_some] at h
    exact ⟨row, .inl h.2, .refl row⟩
  · exact ⟨row, .inr h, .refl row⟩

theorem keeps_deleteNodesByPubkeys (pubkeys : List String) (t : ConfiguredScope.Tables) :
    Keeps t (deleteNodesByPubkeys pubkeys t) := by
  refine Runs.foldl_invariant (I := fun t' : ConfiguredScope.Tables => Keeps t t') (.refl t) ?_
  exact fun t' batch _ ht => ht.trans (keeps_deleteBatch t' batch)

theorem keeps_persistEntry (t : ConfiguredScope.Tables) (e : NodeTables.Entry) : Keeps t (persistEntry t e) := by
  have hf : ∀ sup evidence row, Alike row (NodeTables.setMultibyte sup evidence row) :=
    fun _ _ _ => ⟨rfl, rfl, rfl, rfl⟩
  simp only [persistEntry]
  split
  · exact .refl t
  split
  · exact keeps_updateRow t e.publicKey (hf _ _)
  · rintro pk row (h | h)
    · exact ⟨row, .inl h, .refl row⟩
    · obtain ⟨row', hrow', halike⟩ := updateRow_alike (hf _ _) h
      exact ⟨row', .inr hrow', halike⟩

theorem keeps_runMultibyteCapPersist (entries : List NodeTables.Entry) (t : ConfiguredScope.Tables) :
    Keeps t (runMultibyteCapPersist entries t) := by
  refine Runs.foldl_invariant (I := fun t' : ConfiguredScope.Tables => Keeps t t') (.refl t) ?_
  exact fun t' e _ ht => ht.trans (keeps_persistEntry t' e)

def Write.isAdvert : Write → Bool
  | .node (.upsertNode ..) => true
  | _ => false

theorem keeps_perform (s : Store) (h : a.isAdvert = false) : Keeps s.nodes.tables (s.perform a).nodes.tables := by
  cases a with
  | node b =>
      cases b with
      | upsertNode pubKey name role lat lon lastSeen now => cases h
      | incrementAdvertCount pubKey => exact keeps_updateRow _ pubKey fun row => ⟨rfl, rfl, rfl, rfl⟩
      | touchRelayNodes pubkeys rxTime => exact keeps_touchRelayNodesLocked pubkeys rxTime s.nodes
      | moveStaleNodes cutoff => exact keeps_moveStaleNodes _ cutoff
      | deleteNodes pubkeys => exact keeps_deleteNodesByPubkeys pubkeys _
      | persistMultibyte entries => exact keeps_runMultibyteCapPersist entries _
  | updateNodeConfiguredScope pubkey scope reportedAt => exact keeps_configure _ pubkey scope reportedAt
  | _ => exact .refl _

/-- One of the deliveries is an advert of the key that is accepted, and tells this of it. -/
def Told (w : World) (cfg : Config) (deliveries : List Delivery) (pk : String) (P : String → String → Option Float → Option Float → Prop) :
    Prop := ∃ d ∈ deliveries, ∃ name role lat lon, d.Adverts w cfg pk name role lat lon ∧ P name role lat lon

/-- Name and role are those of an advert of the node, each of the coordinates is, or they are as they were. -/
structure Vouched (w : World) (cfg : Config) (deliveries : List Delivery) (t : ConfiguredScope.Tables) (pk : String) (row : NodeRow) :
    Prop where
  label : (∃ old, Has t pk old ∧ old.name = row.name ∧ old.role = row.role) ∨
    Told w cfg deliveries pk fun name role _ _ => row.name = some name ∧ row.role = some role
  lat : (∃ old, Has t pk old ∧ old.lat = row.lat) ∨ Told w cfg deliveries pk fun _ _ lat _ => row.lat = lat
  lon : (∃ old, Has t pk old ∧ old.lon = row.lon) ∨ Told w cfg deliveries pk fun _ _ _ lon => row.lon = lon

theorem Vouched.of_has {pk : String} {row : NodeRow} (h : Has t pk row) : Vouched w cfg deliveries t pk row :=
  ⟨.inl ⟨row, h, rfl, rfl⟩, .inl ⟨row, h, rfl⟩, .inl ⟨row, h, rfl⟩⟩

theorem Vouched.alike {pk : String} {row row' : NodeRow} (h : Vouched w cfg deliveries t pk row) (halike : Alike row row') :
    Vouched w cfg deliveries t pk row' := by
  constructor
  · rw [halike.name, halike.role]
    exact h.label
  · rw [halike.lat]
    exact h.lat
  · rw [halike.lon]
    exact h.lon

/-- All that the tables say of nodes. -/
def AllVouched (w : World) (cfg : Config) (deliveries : List Delivery) (t t' : ConfiguredScope.Tables) : Prop :=
  ∀ pk row, Has t' pk row → Vouched w cfg deliveries t pk row

theorem AllVouched.keep (h : AllVouched w cfg deliveries t t') (hkeeps : Keeps t' t'') : AllVouched w cfg deliveries t t'' := by
  intro pk row hrow
  obtain ⟨row', hrow', halike⟩ := hkeeps pk row hrow
  exact (h pk row' hrow').alike halike

theorem AllVouched.advert (h : AllVouched w cfg deliveries t t') {d : Delivery} (hd : d ∈ deliveries) {pubKey name role : String}
    {lat lon : Option Float} (hadverts : d.Adverts w cfg pubKey name role lat lon) (lastSeen now : String) :
    AllVouched w cfg deliveries t (t'.upsertNode pubKey name role lat lon lastSeen now) := by
  have htold : ∀ {P : String → String → Option Float → Option Float → Prop}, P name role lat lon → Told w cfg deliveries pubKey P :=
    fun hP => ⟨d, hd, name, role, lat, lon, hadverts, hP⟩
  rintro pk row (hrow | hrow)
  · by_cases hpk : pk = pubKey
    · subst hpk
      simp only [ConfiguredScope.Tables.upsertNode, Function.update_self, Option.some.injEq] at hrow
      cases hold : t'.nodes pk with
      | none =>
          rw [hold] at hrow
          subst hrow
          exact ⟨.inr (htold ⟨rfl, rfl⟩), .inr (htold rfl), .inr (htold rfl)⟩
      | some old =>
          rw [hold] at hrow
          subst hrow
          have hbefore := h pk old (.inl hold)
          refine ⟨.inr (htold ⟨rfl, rfl⟩), ?_, ?_⟩
          · cases lat with
            | none => exact hbefore.lat
            | some lat => exact .inr (htold rfl)
          · cases lon with
            | none => exact hbefore.lon
            | some lon => exact .inr (htold rfl)
    · simp only [ConfiguredScope.Tables.upsertNode, Function.update_of_ne hpk] at hrow
      exact h pk row (.inl hrow)
  · exact h pk row (.inr hrow)

theorem occurs_advert {pubKey name role lastSeen now : String} {lat lon : Option Float}
    (h : Occurs w cfg deliveries (.node (.upsertNode pubKey name role lat lon lastSeen now))) :
    ∃ d ∈ deliveries, d.Adverts w cfg pubKey name role lat lon := by
  cases h with
  | upkeep u h => cases u <;> cases h
  | restart h => cases h
  | message d hd h =>
      cases writes_lead h with
      | own hfrom hobserver => cases hobserver
      | packet data hheard hdata => cases hdata
      | node pubKey' name' role' lat' lon' lastSeen' now' hadverts hnode =>
          cases hnode
          exact ⟨d, hd, hadverts⟩
      | other hobserver hpacket hnode => exact absurd rfl (hnode pubKey name role lat lon lastSeen now)

theorem vouched_perform {s : Store} (h : AllVouched w cfg deliveries t s.nodes.tables) (ha : Occurs w cfg deliveries a) :
    AllVouched w cfg deliveries t (s.perform a).nodes.tables := by
  cases hadvert : a.isAdvert with
  | false => exact h.keep (keeps_perform s hadvert)
  | true =>
      unfold Write.isAdvert at hadvert
      split at hadvert
      · next pubKey name role lat lon lastSeen now =>
          obtain ⟨d, hd, hadverts⟩ := occurs_advert ha
          exact h.advert hd hadverts lastSeen now
      · cases hadvert

/-- Nothing is said of a node but by its own adverts, which are valid, signed where that is checked, and let in. -/
theorem nodes_vouched (w : World) (cfg : Config) (tables : IngestTables.Tables) (nodes : ConfiguredScope.Tables)
    (actions : List Action) :
    AllVouched w cfg (delivered actions) nodes ((State.boot tables nodes).run w cfg actions).store.nodes.tables := by
  obtain ⟨ws, hstore, hws⟩ := boot_trace w cfg tables nodes actions
  rw [hstore]
  refine Runs.foldl_invariant (I := fun s : Store => AllVouched w cfg (delivered actions) nodes s.nodes.tables) ?_ ?_
  · exact fun _ _ h => .of_has h
  · exact fun s a ha h => vouched_perform h (hws a ha)

end MeshcoreAnalyzer.MessageRouter
