import MeshcoreAnalyzer.LiveRows
import MeshcoreAnalyzer.Uniqueness

namespace MeshcoreAnalyzer.PacketStore.ObserverIndex

open Maps Runs Store Overlap

section Lists

variable {A B K V : Type} [DecidableEq A] [DecidableEq K]

theorem flatMap_update_perm {l : List A} (hnd : l.Nodup) {r : A} (hr : r ∈ l) (f : A → List B) (o : B) :
    (l.flatMap (Function.update f r (f r ++ [o]))).Perm (l.flatMap f ++ [o]) := by
  induction l with
  | nil => cases hr
  | cons a l ih =>
      obtain ⟨ha, hnd⟩ := List.nodup_cons.mp hnd
      rw [List.flatMap_cons, List.flatMap_cons]
      rcases List.mem_cons.mp hr with rfl | hr
      · have hrest : l.flatMap (Function.update f r (f r ++ [o])) = l.flatMap f := by
          apply List.flatMap_congr
          intro b hb
          apply Function.update_of_ne
          rintro rfl
          exact ha hb
        rw [hrest, Function.update_self, List.append_assoc, List.append_assoc]
        exact List.perm_append_comm.append_left (f r)
      · have hne : a ≠ r := fun heq => ha (heq ▸ hr)
        rw [Function.update_of_ne hne, List.append_assoc]
        exact (ih hnd hr).append_left (f a)

theorem flatMap_update_of_notMem {l : List A} {r : A} (hr : r ∉ l) (f : A → List B) (os : List B) :
    l.flatMap (Function.update f r os) = l.flatMap f := by
  apply List.flatMap_congr
  intro a ha
  apply Function.update_of_ne
  rintro rfl
  exact hr ha

theorem bucket_foldl_push (key : V → K) (l : List V) (m : GoMap K (List V)) (k : K) :
    bucket (l.foldl (fun m v => push m (key v) v) m) k = bucket m k ++ l.filter (key · = k) := by
  induction l generalizing m with
  | nil => simp
  | cons v l ih =>
      rw [List.foldl_cons, ih, bucket_push]
      by_cases hv : key v = k
      · rw [if_pos hv.symm, hv, List.filter_cons_of_pos (by simpa using hv), List.append_assoc]
        rfl
      · rw [if_neg (Ne.symm hv), List.filter_cons_of_neg (by simpa using hv)]

theorem foldl_set_eq_some {key : V → K} {l : List V} {m : GoMap K V} {k : K} {v : V}
    (h : l.foldl (fun m v => set m (key v) v) m k = some v) : (v ∈ l ∧ key v = k) ∨ m k = some v := by
  induction l generalizing m with
  | nil => exact .inr h
  | cons w l ih =>
      rcases ih h with ⟨hv, hk⟩ | h
      · exact .inl ⟨List.mem_cons_of_mem w hv, hk⟩
      · rcases set_eq_some.mp h with ⟨rfl, rfl⟩ | ⟨_, h⟩
        · exact .inl ⟨List.mem_cons_self, rfl⟩
        · exact .inr h

theorem flatMap_filter_perm {ks : List K} (hnd : ks.Nodup) (key : V → K) (l : List V) :
    (ks.flatMap fun k => l.filter (key · = k)).Perm (l.filter (key · ∈ ks)) := by
  induction ks with
  | nil => simp
  | cons k ks ih =>
      obtain ⟨hk, hnd⟩ := List.nodup_cons.mp hnd
      have hthis : (l.filter (key · ∈ k :: ks)).filter (key · = k) = l.filter (key · = k) := by
        rw [List.filter_filter]
        apply List.filter_congr
        intro v _
        by_cases hv : key v = k <;> simp [hv]
      have hrest : (l.filter (key · ∈ k :: ks)).filter (fun v => !decide (key v = k)) = l.filter (key · ∈ ks) := by
        rw [List.filter_filter]
        apply List.filter_congr
        intro v _
        by_cases hv : key v = k <;> simp [hv, hk]
      have hsplit := List.filter_append_perm (key · = k) (l.filter (key · ∈ k :: ks))
      rw [hthis, hrest] at hsplit
      rw [List.flatMap_cons]
      exact ((ih hnd).append_left _).trans hsplit

end Lists

/-- What the rows have in common: the hash of a transmission, no two alike, and the
transmission of an observation. -/
structure Tables where
  hashOf : Int → String
  txOf : Int → Int
  distinct : Function.Injective hashOf

def heardAs (k : String) (o : StoreObs) : Bool := k ≠ "" && o.observerID = k

theorem heardAs_eq_true {k : String} {o : StoreObs} : heardAs k o = true ↔ k ≠ "" ∧ o.observerID = k := by
  rw [heardAs, Bool.and_eq_true, decide_eq_true_iff, decide_eq_true_iff]

/-- Each observation is of the transmission that has it. Of the `loc`, those in `done`
are indexed together with the packets. -/
structure Heard (db : Tables) (c : Catalog) (l : Ledger) (done loc : List TxRef) : Prop where
  own : ∀ r ∈ loc ++ c.packets, ∀ o ∈ l.observations r,
    o.transmissionID = (c.row r).id ∧ db.txOf o.id = (c.row r).id
  byObserver : ∀ k, (bucket l.byObserver k).Perm (((done ++ c.packets).flatMap l.observations).filter (heardAs k))
  byObsID : ∀ i, (l.byObsID i).isSome → ∃ r ∈ done ++ c.packets, ∃ o ∈ l.observations r, o.id = i

section Steps

variable {db : Tables} {c : Catalog} {l : Ledger} {done loc : List TxRef}

theorem Heard.insertTx (h : Heard db c l done loc) (hwf : c.WF loc) (hsub : done ⊆ loc) (tx : TxRow) (bytes : Int) :
    Heard db (c.insertTx tx) ((l.alloc c.next).pay bytes) done loc := by
  have hnew : c.next ∉ done ++ c.packets := by
    intro hm
    apply hwf.next_notMem
    rcases List.mem_append.mp hm with hm | hm
    · exact List.mem_append_left _ (hsub hm)
    · exact List.mem_append_right _ hm
  have hobs : ∀ r, r ≠ c.next → ((l.alloc c.next).pay bytes).observations r = l.observations r := fun r hr =>
    Function.update_of_ne hr _ _
  have hnone : ((l.alloc c.next).pay bytes).observations c.next = [] := Function.update_self _ _ _
  have hassoc : ∀ rs : List TxRef, rs ++ (c.insertTx tx).packets = rs ++ c.packets ++ [c.next] := fun rs =>
    (List.append_assoc _ _ _).symm
  refine ⟨?_, ?_, ?_⟩
  · intro r hr o ho
    rw [hassoc, List.mem_append, List.mem_singleton] at hr
    rcases hr with hr | rfl
    · have hne : r ≠ c.next := fun heq => hwf.next_notMem (heq ▸ hr)
      rw [hobs r hne] at ho
      have hrow : (c.insertTx tx).row r = c.row r := Catalog.update_row_of_mem hwf tx hr
      rw [hrow]
      exact h.own r hr o ho
    · rw [hnone] at ho
      cases ho
  · intro k
    have hflat : ((done ++ c.packets ++ [c.next]).flatMap ((l.alloc c.next).pay bytes).observations) =
        (done ++ c.packets).flatMap l.observations := by
      rw [List.flatMap_append, List.flatMap_singleton, hnone, List.append_nil]
      exact flatMap_update_of_notMem hnew l.observations []
    rw [hassoc, hflat]
    exact h.byObserver k
  · intro i hi
    obtain ⟨r, hr, o, ho, hid⟩ := h.byObsID i hi
    have hne : r ≠ c.next := fun heq => hnew (heq ▸ hr)
    refine ⟨r, ?_, o, ?_, hid⟩
    · rw [hassoc]
      exact List.mem_append_left _ hr
    · rw [hobs r hne]
      exact ho

theorem Heard.attach (h : Heard db c l done loc) (hnd : (done ++ c.packets).Nodup) {r : TxRef}
    (hr : r ∈ done ++ c.packets) {o : ObsRow} (htx : o.txID = (c.row r).id) (ho : o.txID = db.txOf o.id) :
    Heard db c (l.attach r o.toObs) done loc := by
  have hself : (l.attach r o.toObs).observations r = l.observations r ++ [o.toObs] := Function.update_self _ _ _
  have hother : ∀ q, q ≠ r → (l.attach r o.toObs).observations q = l.observations q := fun q hq =>
    Function.update_of_ne hq _ _
  have hmono : ∀ q, l.observations q ⊆ (l.attach r o.toObs).observations q := by
    intro q
    by_cases hq : q = r
    · rw [hq, hself]
      exact List.subset_append_left _ _
    · rw [hother q hq]
      exact List.Subset.refl _
  refine ⟨?_, ?_, ?_⟩
  · intro q hq p hp
    by_cases hqr : q = r
    · subst hqr
      rw [hself, List.mem_append, List.mem_singleton] at hp
      rcases hp with hp | rfl
      · exact h.own q hq p hp
      · exact ⟨htx, ho.symm.trans htx⟩
    · rw [hother q hqr] at hp
      exact h.own q hq p hp
  · intro k
    have hflat := (flatMap_update_perm hnd hr l.observations o.toObs).filter (heardAs k)
    refine List.Perm.trans ?_ hflat.symm
    change (bucket (if o.observerID ≠ "" then push l.byObserver o.observerID o.toObs else l.byObserver) k).Perm _
    rw [List.filter_append]
    by_cases hk : k ≠ "" ∧ o.observerID = k
    · obtain ⟨hne, rfl⟩ := hk
      rw [if_pos hne, bucket_push, if_pos rfl, List.filter_cons_of_pos (heardAs_eq_true.mpr ⟨hne, rfl⟩)]
      exact (h.byObserver _).append_right _
    · have hout : ¬ heardAs k o.toObs = true := fun hin => hk (heardAs_eq_true.mp hin)
      have hsame : bucket (if o.observerID ≠ "" then push l.byObserver o.observerID o.toObs else l.byObserver) k =
          bucket l.byObserver k := by
        split
        · next hne =>
            rw [bucket_push, if_neg]
            rintro rfl
            exact hk ⟨hne, rfl⟩
        · rfl
      rw [hsame, List.filter_cons_of_neg hout, List.filter_nil, List.append_nil]
      exact h.byObserver k
  · intro i hi
    replace hi : (set l.byObsID o.id o.toObs i).isSome := hi
    rw [set_apply] at hi
    split at hi
    · next heq =>
        refine ⟨r, hr, o.toObs, ?_, heq.symm⟩
        rw [hself]
        exact List.mem_append_right _ (List.mem_singleton_self _)
    · obtain ⟨q, hq, p, hp, hid⟩ := h.byObsID i hi
      exact ⟨q, hq, p, hmono q hp, hid⟩

theorem Heard.alloc (h : Heard db c l [] loc) (hwf : c.WF loc) (tx : TxRow) :
    Heard db (c.alloc tx) (l.alloc c.next) [] (loc ++ [c.next]) := by
  have hnew : c.next ∉ c.packets := fun hm => hwf.next_notMem (List.mem_append_right _ hm)
  have hobs : ∀ r, r ≠ c.next → (l.alloc c.next).observations r = l.observations r := fun r hr =>
    Function.update_of_ne hr _ _
  refine ⟨?_, ?_, ?_⟩
  · intro r hr o ho
    by_cases hne : r = c.next
    · subst hne
      rw [show (l.alloc c.next).observations c.next = [] from Function.update_self _ _ _] at ho
      cases ho
    · have hold : r ∈ loc ++ c.packets := by
        rw [List.append_assoc, List.mem_append, List.mem_append, List.mem_singleton] at hr
        rcases hr with hr | hr | hr
        · exact List.mem_append_left _ hr
        · exact absurd hr hne
        · exact List.mem_append_right _ hr
      have hrow : (c.alloc tx).row r = c.row r := Catalog.update_row_of_mem hwf tx hold
      rw [hobs r hne] at ho
      rw [hrow]
      exact h.own r hold o ho
  · intro k
    have hflat : c.packets.flatMap (l.alloc c.next).observations = c.packets.flatMap l.observations :=
      flatMap_update_of_notMem hnew l.observations []
    change (bucket l.byObserver k).Perm ((c.packets.flatMap (l.alloc c.next).observations).filter (heardAs k))
    rw [hflat]
    exact h.byObserver k
  · intro i hi
    obtain ⟨r, hr, o, ho, hid⟩ := h.byObsID i hi
    have hne : r ≠ c.next := by
      rintro rfl
      exact hnew hr
    exact ⟨r, hr, o, by rw [hobs r hne]; exact ho, hid⟩

theorem Heard.append (h : Heard db c l [] loc) (hnd : (loc ++ c.packets).Nodup) {r : TxRef} (hr : r ∈ loc)
    {o : ObsRow} (htx : o.txID = (c.row r).id) (ho : o.txID = db.txOf o.id) :
    Heard db c (l.append r o.toObs) [] loc := by
  have hout : r ∉ c.packets := fun hm => (List.nodup_append.mp hnd).2.2 r hr r hm rfl
  have hother : ∀ q, q ≠ r → (l.append r o.toObs).observations q = l.observations q := fun q hq =>
    Function.update_of_ne hq _ _
  refine ⟨?_, ?_, ?_⟩
  · intro q hq p hp
    by_cases hqr : q = r
    · subst hqr
      rw [show (l.append q o.toObs).observations q = l.observations q ++ [o.toObs] from Function.update_self _ _ _,
        List.mem_append, List.mem_singleton] at hp
      rcases hp with hp | rfl
      · exact h.own q hq p hp
      · exact ⟨htx, ho.symm.trans htx⟩
    · rw [hother q hqr] at hp
      exact h.own q hq p hp
  · intro k
    have hflat : c.packets.flatMap (l.append r o.toObs).observations = c.packets.flatMap l.observations :=
      flatMap_update_of_notMem hout l.observations _
    change (bucket l.byObserver k).Perm ((c.packets.flatMap (l.append r o.toObs).observations).filter (heardAs k))
    rw [hflat]
    exact h.byObserver k
  · intro i hi
    obtain ⟨q, hq, p, hp, hid⟩ := h.byObsID i hi
    have hne : q ≠ r := by
      rintro rfl
      exact hout hq
    exact ⟨q, hq, p, by rw [hother q hne]; exact hp, hid⟩

theorem Heard.mergeBatch (h : Heard db c l done loc) {batch : List TxRef} (hsub : done ++ batch ⊆ loc)
    (hsound : Sound db.hashOf c done) (htable : ∀ r ∈ batch, (c.row r).hash = db.hashOf (c.row r).id)
    (hnew : ∀ r ∈ batch, c.byHash (c.row r).hash = none) :
    Heard db (c.mergeBatch batch) (l.mergeObs (batch.flatMap l.observations)) (done ++ batch) loc := by
  have hunknown : ∀ o ∈ batch.flatMap l.observations, l.byObsID o.id = none := by
    intro o ho
    obtain ⟨r, hr, ho⟩ := List.mem_flatMap.mp ho
    cases hsome : l.byObsID o.id with
    | none => rfl
    | some p =>
        obtain ⟨q, hq, p', hp', hid⟩ := h.byObsID o.id (by rw [hsome]; rfl)
        have hqloc : q ∈ loc ++ c.packets := by
          rcases List.mem_append.mp hq with hq | hq
          · exact List.mem_append_left _ (hsub (List.mem_append_left _ hq))
          · exact List.mem_append_right _ hq
        have hrloc : r ∈ loc ++ c.packets := List.mem_append_left _ (hsub (List.mem_append_right _ hr))
        have hids : (c.row r).id = (c.row q).id := by
          rw [← (h.own r hrloc o ho).2, ← (h.own q hqloc p' hp').2, hid]
        have hfound := hsound.byHash q hq
        rw [hsound.table q hq, ← hids, ← htable r hr, hnew r hr] at hfound
        cases hfound
  refine ⟨h.own, ?_, ?_⟩
  · intro k
    have hlists : (((done ++ batch) ++ c.packets).flatMap l.observations).Perm
        ((done ++ c.packets).flatMap l.observations ++ batch.flatMap l.observations) := by
      rw [← List.flatMap_append]
      apply List.Perm.flatMap_right
      rw [List.append_assoc, List.append_assoc]
      exact List.perm_append_comm.append_left done
    refine List.Perm.trans ?_ (hlists.filter (heardAs k)).symm
    change (bucket (List.foldl _ l.byObserver _) k).Perm _
    rw [bucket_foldl_push, List.filter_filter, List.filter_append]
    have hbatch : (batch.flatMap l.observations).filter
        (fun o => decide (o.observerID = k) && (o.observerID ≠ "" && (l.byObsID o.id).isNone)) =
        (batch.flatMap l.observations).filter (heardAs k) := by
      apply List.filter_congr
      intro o ho
      rw [hunknown o ho, heardAs]
      by_cases hk : o.observerID = k
      · subst hk
        simp
      · simp [hk]
    rw [hbatch]
    exact (h.byObserver k).append_right _
  · intro i hi
    cases hold : l.byObsID i with
    | some p =>
        obtain ⟨q, hq, o, ho, hid⟩ := h.byObsID i (by rw [hold]; rfl)
        refine ⟨q, ?_, o, ho, hid⟩
        change q ∈ done ++ batch ++ c.packets
        rw [List.append_assoc]
        rcases List.mem_append.mp hq with hq | hq
        · exact List.mem_append_left _ hq
        · exact List.mem_append_right _ (List.mem_append_right _ hq)
    | none =>
        replace hi : (l.byObsID i <|> (batch.flatMap l.observations).foldl (fun m o => set m o.id o)
          Maps.empty i).isSome := hi
        rw [hold] at hi
        obtain ⟨o, ho⟩ := Option.isSome_iff_exists.mp hi
        rcases foldl_set_eq_some ho with ⟨hmem, hid⟩ | hempty
        · obtain ⟨r, hr, hmem⟩ := List.mem_flatMap.mp hmem
          refine ⟨r, ?_, o, hmem, hid⟩
          exact List.mem_append_left _ (List.mem_append_right _ hr)
        · cases hempty

theorem Heard.publish (h : Heard db c l done done) (n bytes : Int) :
    Heard db (c.publish done) { l with totalObs := n, trackedBytes := bytes } [] [] :=
  ⟨h.own, h.byObserver, h.byObsID⟩

theorem Heard.perm (h : Heard db c l [] []) {d : Catalog} (hrow : d.row = c.row) (hperm : d.packets.Perm c.packets) :
    Heard db d l [] [] := by
  refine ⟨?_, ?_, ?_⟩
  · intro r hr
    rw [hrow]
    exact h.own r (hperm.mem_iff.mp hr)
  · intro k
    exact (h.byObserver k).trans ((hperm.flatMap_right l.observations).filter (heardAs k)).symm
  · intro i hi
    obtain ⟨r, hr, ho⟩ := h.byObsID i hi
    exact ⟨r, hperm.mem_iff.mpr hr, ho⟩

theorem Heard.evict {s : Store} (h : Heard db s.catalog s.ledger done loc) (hsub : done ⊆ loc)
    (hsound : Sound db.hashOf s.catalog done) (rpBatch : Int → List String) (n : Nat) :
    Heard db (s.evict rpBatch n).catalog (s.evict rpBatch n).ledger done loc := by
  have hobs : (s.evict rpBatch n).ledger.observations = s.ledger.observations := observations_cachePaths s _
  have hrow : (s.evict rpBatch n).catalog.row = s.catalog.row := by
    rw [catalog_evict]
    rfl
  have hloc : ∀ r ∈ done ++ s.packets, r ∈ loc ++ s.packets := fun r hr =>
    (List.mem_append.mp hr).elim (fun hr => List.mem_append_left _ (hsub hr)) (List.mem_append_right _)
  have hkept : ∀ r ∈ done ++ s.packets.drop n, r ∈ done ++ s.packets := fun r hr =>
    (List.mem_append.mp hr).elim (List.mem_append_left _) fun hr => List.mem_append_right _ (List.mem_of_mem_drop hr)
  have hgone : ∀ r ∈ s.packets.take n, r ∈ done ++ s.packets := fun r hr =>
    List.mem_append_right _ (List.mem_of_mem_take hr)
  -- no observation that stays has the ID of one that goes
  have hids : ∀ r ∈ done ++ s.packets.drop n, ∀ o ∈ s.ledger.observations r,
      o.id ∉ ((s.packets.take n).flatMap s.ledger.observations).map (·.id) := by
    intro r hr o ho hm
    obtain ⟨e, he, hid⟩ := List.mem_map.mp hm
    obtain ⟨q, hq, he⟩ := List.mem_flatMap.mp he
    have hsame : (s.row q).id = (s.row r).id := by
      have hq' := (h.own q (hloc q (hgone q hq)) e he).2
      have hr' := (h.own r (hloc r (hkept r hr)) o ho).2
      rw [hid] at hq'
      exact hq'.symm.trans hr'
    have heq := hsound.eq_of_id (hgone q hq) (hkept r hr) hsame
    subst heq
    exact hsound.wf.evicted_notMem hq hr
  have hsplit : ∀ k, (bucket s.byObserver k).Perm
      (((s.packets.take n).flatMap s.ledger.observations).filter (heardAs k) ++
        ((done ++ s.packets.drop n).flatMap s.ledger.observations).filter (heardAs k)) := by
    intro k
    refine (h.byObserver k).trans ?_
    rw [← List.filter_append, ← List.flatMap_append]
    apply (List.Perm.flatMap_right s.ledger.observations _).filter
    change (done ++ s.packets).Perm _
    conv_lhs => rw [← List.take_append_drop n s.packets]
    rw [← List.append_assoc, ← List.append_assoc]
    exact List.perm_append_comm.append_right _
  refine ⟨?_, ?_, ?_⟩
  · intro r hr
    rw [hobs, hrow]
    exact h.own r ((List.mem_append.mp hr).elim (List.mem_append_left _) fun hr =>
      List.mem_append_right _ (List.mem_of_mem_drop hr))
  · intro k
    rw [hobs]
    change (bucket (filterKeys _ _ s.byObserver) k).Perm
      (((done ++ s.packets.drop n).flatMap s.ledger.observations).filter (heardAs k))
    rw [bucket_filterKeys]
    split
    · refine ((hsplit k).filter _).trans ?_
      rw [List.filter_append]
      have hnone : (((s.packets.take n).flatMap s.ledger.observations).filter (heardAs k)).filter
          (fun o => o.id ∉ ((s.packets.take n).flatMap s.ledger.observations).map (·.id)) = [] := by
        apply List.filter_eq_nil_iff.mpr
        intro o ho hout
        exact of_decide_eq_true hout (List.mem_map_of_mem (List.mem_of_mem_filter ho))
      have hall : (((done ++ s.packets.drop n).flatMap s.ledger.observations).filter (heardAs k)).filter
          (fun o => o.id ∉ ((s.packets.take n).flatMap s.ledger.observations).map (·.id)) =
          ((done ++ s.packets.drop n).flatMap s.ledger.observations).filter (heardAs k) := by
        apply List.filter_eq_self.mpr
        intro o ho
        obtain ⟨r, hr, ho⟩ := List.mem_flatMap.mp (List.mem_of_mem_filter ho)
        exact decide_eq_true (hids r hr o ho)
      exact List.Perm.of_eq (congrArg₂ (· ++ ·) hnone hall)
    · next hk =>
        refine (hsplit k).trans ?_
        have hnone : ((s.packets.take n).flatMap s.ledger.observations).filter (heardAs k) = [] := by
          apply List.filter_eq_nil_iff.mpr
          intro o ho hheard
          obtain ⟨hne, rfl⟩ := heardAs_eq_true.mp hheard
          apply hk
          rw [Bool.and_eq_true, decide_eq_true_iff, decide_eq_true_iff]
          exact ⟨hne, List.mem_map_of_mem ho⟩
        rw [hnone]
        exact List.Perm.refl _
  · intro i hi
    obtain ⟨v, hv⟩ := Option.isSome_iff_exists.mp hi
    obtain ⟨hout, hv⟩ := (foldl_delete_eq_some _ _ _).mp hv
    obtain ⟨r, hr, o, ho, hid⟩ := h.byObsID i (Option.isSome_iff_exists.mpr ⟨v, hv⟩)
    rw [hobs]
    refine ⟨r, ?_, o, ho, hid⟩
    rcases List.mem_append.mp hr with hr | hr
    · exact List.mem_append_left _ hr
    · apply List.mem_append_right
      replace hr : r ∈ s.packets := hr
      rw [← List.take_append_drop n s.packets] at hr
      rcases List.mem_append.mp hr with hr | hr
      · exact absurd hid (hout o (List.mem_flatMap.mpr ⟨r, hr, ho⟩))
      · exact hr

end Steps

structure Kept (db : Tables) (done loc : List TxRef) (s : Store) : Prop where
  wf : s.catalog.WF loc
  sound : Sound db.hashOf s.catalog done
  heard : Heard db s.catalog s.ledger done loc

variable {db : Tables} {done loc : List TxRef} {s : Store}

theorem Kept.found (h : Kept db done loc s) (hsub : done ⊆ loc) {r : TxRef} (hr : r ∈ done ++ s.packets)
    {o : StoreObs} (ho : o ∈ (s.heap r).observations) : s.byTxID o.transmissionID = some r := by
  have hloc : r ∈ loc ++ s.packets :=
    (List.mem_append.mp hr).elim (fun hr => List.mem_append_left _ (hsub hr)) (List.mem_append_right _)
  have hown : o.transmissionID = (s.row r).id := (h.heard.own r hloc o ho).1
  rw [hown]
  exact h.sound.byTxID r hr

theorem Kept.mem_byObserver (h : Kept db done loc s) {id : String} {o : StoreObs} :
    o ∈ bucket s.byObserver id ↔
      (∃ r ∈ done ++ s.packets, o ∈ (s.heap r).observations) ∧ id ≠ "" ∧ o.observerID = id := by
  change o ∈ bucket s.ledger.byObserver id ↔ _
  rw [(h.heard.byObserver id).mem_iff, List.mem_filter, heardAs_eq_true, List.mem_flatMap]
  rfl

theorem Kept.congr (h : Kept db done loc s) {t : Store} (hcat : t.catalog = s.catalog) (hledger : t.ledger = s.ledger) :
    Kept db done loc t := by
  refine ⟨?_, ?_, ?_⟩
  · rw [hcat]
    exact h.wf
  · rw [hcat]
    exact h.sound
  · rw [hcat, hledger]
    exact h.heard

theorem Kept.findOrInsert (h : Kept db done loc s) (hsub : done ⊆ loc) {tx : TxRow} (htx : tx.hash = db.hashOf tx.id) :
    Kept db done loc (s.findOrInsert tx).1 ∧ (s.findOrInsert tx).2 ∈ done ++ (s.findOrInsert tx).1.packets ∧
      ((s.findOrInsert tx).1.row (s.findOrInsert tx).2).id = tx.id := by
  rw [Store.findOrInsert]
  split
  · next r hr =>
      obtain ⟨hmem, hhash⟩ := h.sound.wf.hash tx.hash r hr
      refine ⟨h, hmem, db.distinct ?_⟩
      rw [← htx, ← hhash]
      exact (h.sound.table r hmem).symm
  · next hnew =>
      have hcat := catalog_insertTx s tx
      refine ⟨⟨?_, ?_, ?_⟩, ?_, ?_⟩
      · rw [hcat]
        exact h.wf.insertTx tx
      · rw [hcat]
        exact h.sound.insertTx htx hnew
      · rw [hcat, ledger_insertTx]
        exact h.heard.insertTx h.wf hsub tx (rowBytes tx)
      · exact List.mem_append_right _ (List.mem_append_right _ (List.mem_singleton_self _))
      · have hrow : (s.insertTx tx).row s.next = tx := by
          have hself : (s.catalog.insertTx tx).row s.next = tx := Function.update_self _ _ _
          rw [← hcat] at hself
          exact hself
        rw [hrow]

theorem Kept.attachObs (h : Kept db done loc s) {index : Store → TxRef → ObsRow → Store}
    (hcat : ∀ s r o, (index s r o).catalog = s.catalog) (hledger : ∀ s r o, (index s r o).ledger = s.ledger)
    {r : TxRef} (hr : r ∈ done ++ s.packets) {o : ObsRow} (htx : o.txID = (s.row r).id) (ho : o.txID = db.txOf o.id) :
    Kept db done loc ((index s r o).attachObs r o.toObs) := by
  refine ⟨?_, ?_, ?_⟩
  · rw [catalog_attachObs, hcat]
    exact h.wf
  · rw [catalog_attachObs, hcat]
    exact h.sound
  · rw [catalog_attachObs, ledger_attachObs, hcat, hledger]
    exact h.heard.attach h.sound.wf.nodup hr htx ho

theorem Kept.mergeRow (h : Kept db done loc s) (hsub : done ⊆ loc) {index : Store → TxRef → ObsRow → Store}
    (hcat : ∀ s r o, (index s r o).catalog = s.catalog) (hledger : ∀ s r o, (index s r o).ledger = s.ledger)
    {row : ScanRow} (htx : row.tx.hash = db.hashOf row.tx.id) (hobs : ∀ o ∈ row.obs, o.txID = db.txOf o.id) :
    Kept db done loc (mergeRow index s row) := by
  obtain ⟨hfound, hmem, hid⟩ := h.findOrInsert hsub htx
  rw [Store.mergeRow]
  split
  · exact hfound
  · next o ho =>
      rw [mergeObs]
      split
      · exact hfound
      · exact hfound.attachObs hcat hledger hmem ((row.joined o ho).trans hid.symm) (hobs o ho)

theorem Kept.lateRow {acc : Store × List (Int × TxRef)} (h : Kept db done loc acc.1) (env : Env) {o : ObsRow}
    (ho : o.txID = db.txOf o.id) : Kept db done loc (lateRow env acc o).1 := by
  rw [Store.lateRow]
  split
  · exact h
  · split
    · exact h
    · next r hr =>
        obtain ⟨hmem, hid⟩ := h.sound.wf.id _ _ hr
        split
        · exact h
        · exact h.attachObs (catalog_indexLiveHops env) (ledger_indexLiveHops env) hmem hid.symm ho

structure Gathering (db : Tables) (acc : Store × Chunk) : Prop where
  reading : Reading acc.1 acc.2
  table : ∀ r ∈ acc.2.packets, (acc.1.row r).hash = db.hashOf (acc.1.row r).id
  heard : Heard db acc.1.catalog acc.1.ledger [] acc.2.packets

theorem Gathering.findOrNewLocal {s : Store} {c : Chunk} (h : Gathering db (s, c)) {tx : TxRow}
    (htx : tx.hash = db.hashOf tx.id) : Gathering db (s.findOrNewLocal c tx).1 ∧
      (s.findOrNewLocal c tx).2 ∈ (s.findOrNewLocal c tx).1.2.packets ∧
      ((s.findOrNewLocal c tx).1.1.row (s.findOrNewLocal c tx).2).id = tx.id := by
  rw [Store.findOrNewLocal]
  split
  · next r hr =>
      obtain ⟨hmem, hhash⟩ := h.reading.byHash tx.hash r hr
      refine ⟨h, hmem, db.distinct ?_⟩
      rw [← htx, ← hhash]
      exact (h.table r hmem).symm
  · next hnew =>
      have hcat := catalog_newLocalTx s c tx
      have hrow : (s.newLocalTx c tx).1.row = Function.update s.row s.next tx := congrArg Catalog.row hcat
      refine ⟨⟨h.reading.newLocalTx hnew, ?_, ?_⟩, List.mem_append_right _ (List.mem_singleton_self _), ?_⟩
      · intro r hr
        rw [hrow]
        rcases List.mem_append.mp hr with hr | hr
        · have hold : Function.update s.row s.next tx r = s.row r :=
            Catalog.update_row_of_mem h.reading.wf tx (List.mem_append_left _ hr)
          rw [hold]
          exact h.table r hr
        · rw [List.mem_singleton.mp hr, Function.update_self]
          exact htx
      · rw [hcat, ledger_newLocalTx]
        exact h.heard.alloc h.reading.wf tx
      · dsimp only
        rw [hrow, Function.update_self]

theorem Gathering.localObs {s : Store} {c : Chunk} (h : Gathering db (s, c)) (relayPM : Option PrefixMap) {r : TxRef}
    (hr : r ∈ c.packets) {o : ObsRow} (htx : o.txID = (s.row r).id) (ho : o.txID = db.txOf o.id) :
    Gathering db (localObs relayPM s c r o) := by
  have hcat := catalog_localObs relayPM s c r o
  have hpackets := localObs_packets relayPM s c r o
  refine ⟨h.reading.congr hcat hpackets (localObs_byHash relayPM s c r o), ?_, ?_⟩
  · rw [row_eq_of_catalog hcat, hpackets]
    exact h.table
  · rw [hcat, hpackets]
    rw [Store.localObs]
    split
    · exact h.heard
    · change Heard db _ (s.modify r (·.addObs o.toObs)).ledger [] c.packets
      rw [ledger_addLocalObs]
      exact h.heard.append h.reading.wf.nodup hr htx ho

theorem Gathering.readRow {acc : Store × Chunk} (h : Gathering db acc) (relayPM : Option PrefixMap) {row : ScanRow}
    (htx : row.tx.hash = db.hashOf row.tx.id) (hobs : ∀ o ∈ row.obs, o.txID = db.txOf o.id) :
    Gathering db (readRow relayPM acc row) := by
  obtain ⟨hfound, hmem, hid⟩ := h.findOrNewLocal htx
  unfold Store.readRow
  dsimp only
  split
  · exact hfound
  · next o ho => exact hfound.localObs relayPM hmem ((row.joined o ho).trans hid.symm) (hobs o ho)

def ReadsFrom (db : Tables) : Action → Prop
  | .scanAndMergeChunk _ rows | .ingestNewFromDB _ _ _ rows | .readChunk _ rows =>
      ∀ row ∈ rows, ∀ o ∈ row.obs, o.txID = db.txOf o.id
  | .ingestNewObservations _ _ rows => ∀ o ∈ rows, o.txID = db.txOf o.id
  | _ => True

/-- The sections read the tables, and the loader merges nothing that the poller has put in. -/
def Guarded (db : Tables) (st : State) (a : Action) : Prop := Uniqueness.Apart db.hashOf st a ∧ ReadsFrom db a

structure Inv (db : Tables) (st : State) : Prop where
  unique : Uniqueness.Inv db.hashOf st
  heard : ∀ done, st.locals = done ++ Uniqueness.pendingOf st →
    Heard db st.store.catalog st.store.ledger done st.locals

variable {st : State}

theorem Inv.kept (h : Inv db st) : ∃ done, st.locals = done ++ Uniqueness.pendingOf st ∧
    done ⊆ st.locals ∧ Kept db done st.locals st.store := by
  obtain ⟨done, hdone, hsound⟩ := h.unique.sound
  refine ⟨done, hdone, ?_, h.unique.wf.catalog, hsound, h.heard done hdone⟩
  rw [hdone]
  exact List.subset_append_left _ _

theorem Inv.of_kept (h : Inv db st) {t : Store} (hunique : Uniqueness.Inv db.hashOf { st with store := t })
    (hkept : ∀ done, done ⊆ st.locals → Kept db done st.locals st.store → Kept db done st.locals t) :
    Inv db { st with store := t } := by
  refine ⟨hunique, fun done hdone => ?_⟩
  obtain ⟨done', hdone', hsub, hk⟩ := h.kept
  have heq : done = done' := List.append_cancel_right (hdone.symm.trans hdone')
  subst heq
  exact (hkept done hsub hk).heard

theorem inv_new (use : Bool) : Inv db (State.new use) := by
  refine ⟨Uniqueness.inv_new use, fun done hdone => ?_⟩
  have hnil : done = [] := (List.append_eq_nil_iff.mp hdone.symm).1
  subst hnil
  refine ⟨fun r hr => (by cases hr), fun k => List.Perm.refl _, fun i hi => (by cases hi)⟩

theorem Inv.mergeRows (h : Inv db st) {index : Store → TxRef → ObsRow → Store}
    (hcat : ∀ s r o, (index s r o).catalog = s.catalog) (hledger : ∀ s r o, (index s r o).ledger = s.ledger)
    {rows : List ScanRow} (htable : ∀ row ∈ rows, row.tx.hash = db.hashOf row.tx.id)
    (hobs : ∀ row ∈ rows, ∀ o ∈ row.obs, o.txID = db.txOf o.id) :
    Inv db { st with store := rows.foldl (mergeRow index) st.store } :=
  h.of_kept (h.unique.mergeRows hcat hledger htable) fun done hsub hk =>
    foldl_invariant (I := Kept db done st.locals) hk fun _ row hrow ht =>
      ht.mergeRow hsub hcat hledger (htable row hrow) (hobs row hrow)

theorem Inv.ingestNewFromDB (h : Inv db st) (env : Env) (sinceID limit : Int) {rows : List ScanRow}
    (htable : ∀ row ∈ rows, row.tx.hash = db.hashOf row.tx.id)
    (hobs : ∀ row ∈ rows, ∀ o ∈ row.obs, o.txID = db.txOf o.id) :
    Inv db (st.step (.ingestNewFromDB env sinceID limit rows)) := by
  have hsub := ingested_subset sinceID limit rows
  refine h.of_kept (h.unique.ingestNewFromDB env sinceID limit htable) fun done hdone hk => ?_
  have hrows : Kept db done st.locals
      ((ingested sinceID limit rows).foldl (mergeRow (indexLiveHops env)) st.store) :=
    foldl_invariant (I := Kept db done st.locals) hk fun _ row hrow ht =>
      ht.mergeRow hdone (catalog_indexLiveHops env) (ledger_indexLiveHops env) (htable row (hsub hrow))
        (hobs row (hsub hrow))
  rw [← ingestRows_fst env _ (st.store, [])] at hrows
  exact hrows.congr (catalog_finishIngest env _ _) (ledger_finishIngest env _ _)

theorem Inv.ingestNewObservations (h : Inv db st) (env : Env) (limit : Int) {rows : List ObsRow}
    (hobs : ∀ o ∈ rows, o.txID = db.txOf o.id) : Inv db (st.step (.ingestNewObservations env limit rows)) := by
  refine h.of_kept (h.unique.ingestNewObservations env limit rows) fun done _ hk => ?_
  have hlate : Kept db done st.locals ((observed limit rows).foldl (lateRow env) (st.store, [])).1 :=
    foldl_invariant (I := fun acc : Store × List (Int × TxRef) => Kept db done st.locals acc.1) hk fun _ o ho ht =>
      ht.lateRow env (hobs o (List.mem_of_mem_take ho))
  exact hlate.congr (catalog_finishObservations env _ _) (ledger_finishObservations env _ _)

theorem Inv.evict (h : Inv db st) (ret : Retention) (rpBatch : Int → List String) :
    Inv db (st.step (.evict ret rpBatch)) := by
  have hunique := h.unique.evict ret rpBatch
  refine h.of_kept hunique fun done hsub hk => ?_
  rw [evictStaleInternal]
  split
  · exact hk
  · split
    · exact hk
    · have hcat := catalog_evict st.store rpBatch (st.store.cutoffIdx ret)
      refine ⟨?_, ?_, hk.heard.evict hsub hk.sound rpBatch _⟩
      · rw [hcat]
        exact hk.wf.evict _
      · rw [hcat]
        exact hk.sound.evict _

theorem Inv.finishLoad (h : Inv db st) {env : Env} {hotCutoff : Option String}
    (ha : st.Enabled (.finishLoad env hotCutoff)) : Inv db (st.step (.finishLoad env hotCutoff)) := by
  have hcat := catalog_finishLoad env hotCutoff st.store
  have hloc := State.locals_of_none ha.2
  refine ⟨h.unique.finishLoad ha, fun done hdone => ?_⟩
  have hnil : done = [] := by
    have hlocals : st.locals = done ++ Uniqueness.pendingOf st := hdone
    rw [hloc] at hlocals
    exact (List.append_eq_nil_iff.mp hlocals.symm).1
  subst hnil
  have hheard := h.heard [] hdone
  change Heard db (st.store.finishLoad env hotCutoff).catalog (st.store.finishLoad env hotCutoff).ledger [] st.locals
  rw [hloc] at hheard ⊢
  rw [hcat, ledger_finishLoad]
  exact hheard.perm rfl (List.perm_insertionSort _ _)

theorem Inv.readChunk (h : Inv db st) {relayPM : Option PrefixMap} {rows : List ScanRow}
    (ha : st.Enabled (.readChunk relayPM rows)) (htable : ∀ row ∈ rows, row.tx.hash = db.hashOf row.tx.id)
    (hobs : ∀ row ∈ rows, ∀ o ∈ row.obs, o.txID = db.txOf o.id) : Inv db (st.step (.readChunk relayPM rows)) := by
  have hloc := State.locals_of_none ha.2
  obtain ⟨done, hdone, _, hk⟩ := h.kept
  have hnil : done = [] := by
    rw [hloc] at hdone
    exact (List.append_eq_nil_iff.mp hdone.symm).1
  subst hnil
  have hstart : Gathering db (st.store, Chunk.empty) := by
    have hwf := hk.wf
    have hheard := hk.heard
    rw [hloc] at hwf hheard
    exact ⟨⟨hwf, fun k r hr => (by cases hr), fun r hr => (by cases hr), List.nodup_nil⟩,
      fun r hr => (by cases hr), hheard⟩
  have hread : Gathering db (rows.foldl (readRow relayPM) (st.store, Chunk.empty)) :=
    foldl_invariant hstart fun acc row hrow hacc => hacc.readRow relayPM (htable row hrow) (hobs row hrow)
  have hcat := catalog_pickAll (rows.foldl (readRow relayPM) (st.store, Chunk.empty)).1
    (rows.foldl (readRow relayPM) (st.store, Chunk.empty)).2.packets
  have hledger := ledger_pickAll (rows.foldl (readRow relayPM) (st.store, Chunk.empty)).1
    (rows.foldl (readRow relayPM) (st.store, Chunk.empty)).2.packets
  refine ⟨h.unique.readChunk ha htable, ?_⟩
  have hstep : st.step (.readChunk relayPM rows) =
      ⟨(st.store.readChunk relayPM rows).1, (st.store.readChunk relayPM rows).2⟩ := rfl
  rw [hstep]
  rw [Store.readChunk]
  dsimp only
  split
  · next hempty =>
      intro done hdone
      have hnil : done = [] := (List.append_eq_nil_iff.mp hdone.symm).1
      subst hnil
      have hheard := hread.heard
      rw [hempty] at hheard
      change Heard db (Store.catalog _) (Store.ledger _) [] []
      rw [hcat, hledger]
      exact hheard
  · intro done hdone
    have hnil : done = [] := List.append_left_eq_self.mp hdone.symm
    subst hnil
    change Heard db (Store.catalog _) (Store.ledger _) [] _
    rw [hcat, hledger]
    exact hread.heard

theorem Inv.mergeBatch (h : Inv db st)
    (hnew : ∀ c ∈ st.chunk, ∀ r ∈ c.pending.take mergeBatchSize, st.store.byHash (st.store.row r).hash = none) :
    Inv db (st.step .mergeBatch) := by
  have hunique := h.unique.mergeBatch hnew
  unfold State.step at hunique ⊢
  dsimp only at hunique ⊢
  split at hunique
  · next c hc =>
      obtain ⟨done, hdone, _, hk⟩ := h.kept
      have hpending : Uniqueness.pendingOf st = c.pending := by
        rw [Uniqueness.pendingOf]
        rw [hc]
      have hloc := State.locals_of_some hc
      have hsplit : c.packets = done ++ c.pending.take mergeBatchSize ++ c.pending.drop mergeBatchSize := by
        rw [List.append_assoc, List.take_append_drop, ← hpending, ← hdone, hloc]
      have htable := h.unique.table
      rw [hloc] at htable
      refine ⟨hunique, fun done' hdone' => ?_⟩
      have heq : done' = done ++ c.pending.take mergeBatchSize :=
        List.append_cancel_right (hdone'.symm.trans hsplit)
      subst heq
      change Heard db (st.store.mergeBatch c).1.catalog (st.store.mergeBatch c).1.ledger _ c.packets
      rw [catalog_mergeBatch, ledger_mergeBatch]
      have hheard := hk.heard
      rw [hloc] at hheard
      refine hheard.mergeBatch ?_ hk.sound (fun r hr => htable r ?_) (hnew c hc)
      · rw [hsplit]
        exact List.subset_append_left _ _
      · rw [hsplit]
        exact List.mem_append_left _ (List.mem_append_right _ hr)
  · exact h

theorem Inv.publish (h : Inv db st) (ha : st.Enabled .publish) : Inv db (st.step .publish) := by
  have hunique := h.unique.publish ha
  obtain ⟨c, hc, hall⟩ := ha
  replace hc : st.chunk = some c := hc
  obtain ⟨done, hdone, _, hk⟩ := h.kept
  have hpending : Uniqueness.pendingOf st = [] := by
    rw [Uniqueness.pendingOf]
    rw [hc]
    exact hall
  have hloc := State.locals_of_some hc
  rw [hpending, List.append_nil, hloc] at hdone
  have hheard := hk.heard
  rw [hloc, hdone] at hheard
  unfold State.step at hunique ⊢
  rw [hc] at hunique ⊢
  refine ⟨hunique, fun done' hdone' => ?_⟩
  have hnil : done' = [] := (List.append_eq_nil_iff.mp hdone'.symm).1
  subst hnil
  change Heard db (st.store.publish c).catalog (st.store.publish c).ledger [] []
  rw [catalog_publish, ledger_publish, hdone]
  exact hheard.publish _ _

theorem Inv.step (h : Inv db st) {a : Action} (ha : Guarded db st a) : Inv db (st.step a) := by
  obtain ⟨⟨henabled, htable, hnew⟩, hobs⟩ := ha
  have hview : ∀ t : Store, t.catalog = st.store.catalog → t.ledger = st.store.ledger →
      Inv db { st with store := t } := fun t hcat hledger =>
    h.of_kept (h.unique.congr hcat hledger) fun _ _ hk => hk.congr hcat hledger
  cases a with
  | scanAndMergeChunk relayPM rows =>
      exact h.mergeRows (catalog_indexLoadedHops relayPM) (ledger_indexLoadedHops relayPM) htable hobs
  | finishLoad env hotCutoff => exact h.finishLoad henabled
  | ingestNewFromDB env sinceID limit rows => exact h.ingestNewFromDB env sinceID limit htable hobs
  | ingestNewObservations env limit rows => exact h.ingestNewObservations env limit hobs
  | readChunk relayPM rows => exact h.readChunk henabled htable hobs
  | mergeBatch => exact h.mergeBatch hnew
  | publish => exact h.publish henabled
  | rebuild => exact hview _ (catalog_rebuild st.store) (ledger_rebuild st.store)
  | buildDistanceIndex env =>
      exact hview _ (catalog_buildDistanceIndex env st.store) (ledger_buildDistanceIndex env st.store)
  | evict ret rpBatch => exact h.evict ret rpBatch

theorem inv_of_guarded {use : Bool} (h : Reach State.step (Guarded db) (· = State.new use) st) : Inv db st :=
  h.invariant (fun _ hst => hst ▸ inv_new use) fun _ _ hi ha => hi.step ha

theorem guarded_ingest_row {use : Bool} {env : Env} {sinceID : Int} {limit : Nat} {row : ScanRow}
    (htx : row.tx.hash = db.hashOf row.tx.id) (hobs : ∀ o ∈ row.obs, o.txID = db.txOf o.id) :
    Along State.step (Guarded db) (State.new use) [.ingestNewFromDB env sinceID limit [row]] := by
  refine ⟨⟨⟨trivial, ?_, trivial⟩, ?_⟩, trivial⟩
  · intro row' hrow
    rw [List.mem_singleton.mp hrow]
    exact htx
  · intro row' hrow
    rw [List.mem_singleton.mp hrow]
    exact hobs

def unary : Tables where
  hashOf i := String.ofList (List.replicate i.toNat 'a' ++ List.replicate (-i).toNat 'b')
  txOf i := i
  distinct := by
    intro i j heq
    have hlists := String.ofList_injective heq
    have ha : i.toNat = j.toNat := by simpa [List.count_replicate] using congrArg (List.count 'a') hlists
    have hb : (-i).toNat = (-j).toNat := by simpa [List.count_replicate] using congrArg (List.count 'b') hlists
    omega

end MeshcoreAnalyzer.PacketStore.ObserverIndex
