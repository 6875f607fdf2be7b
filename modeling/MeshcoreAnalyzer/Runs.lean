import Mathlib.Data.List.Infix

namespace MeshcoreAnalyzer.Runs

variable {S A : Type} (step : S → A → S) (ok : S → A → Prop)

/-- Each element of the list meets the condition in the state that it finds. -/
def Along : S → List A → Prop
  | _, [] => True
  | s, a :: l => ok s a ∧ Along (step s a) l

variable {step ok}

theorem Along.append_left {s : S} {l l' : List A} (h : Along step ok s (l ++ l')) :
    Along step ok s l := by
  induction l generalizing s with
  | nil => trivial
  | cons a l ih => exact ⟨h.1, ih h.2⟩

theorem along_append {s : S} {l l' : List A} :
    Along step ok s (l ++ l') ↔ Along step ok s l ∧ Along step ok (l.foldl step s) l' := by
  induction l generalizing s with
  | nil => simp [Along]
  | cons a l ih =>
      change ok s a ∧ Along step ok (step s a) (l ++ l') ↔ _
      rw [ih, ← and_assoc]
      rfl

theorem along_of_forall {s : S} {l : List A} (h : ∀ s, ∀ a ∈ l, ok s a) : Along step ok s l := by
  induction l generalizing s with
  | nil => trivial
  | cons a l ih =>
      exact ⟨h s a List.mem_cons_self, ih fun s b hb => h s b (List.mem_cons_of_mem a hb)⟩

theorem along_of_prefixes {s : S} {l : List A} (h : ∀ done a, done ++ [a] <+: l → ok (done.foldl step s) a) :
    Along step ok s l := by
  induction l generalizing s with
  | nil => trivial
  | cons a l ih =>
      refine ⟨h [] a (List.prefix_append [a] l), ih fun done b hdone => ?_⟩
      exact h (a :: done) b ((List.prefix_cons_inj a).mpr hdone)

theorem Along.foldl_invariant {I : S → Prop} {s : S} {l : List A} (hl : Along step ok s l)
    (hs : I s) (hstep : ∀ s a, I s → ok s a → I (step s a)) : I (l.foldl step s) := by
  induction l generalizing s with
  | nil => exact hs
  | cons a l ih => exact ih hl.2 (hstep s a hs hl.1)

theorem foldl_invariant {I : S → Prop} {s : S} {l : List A} (hs : I s)
    (hstep : ∀ s, ∀ a ∈ l, I s → I (step s a)) : I (l.foldl step s) := by
  induction l generalizing s with
  | nil => exact hs
  | cons a l ih =>
      exact ih (hstep s a List.mem_cons_self hs) fun s b hb => hstep s b (List.mem_cons_of_mem a hb)

theorem foldl_view {B : Type} {v : S → B} {s : S} {l : List A}
    (hstep : ∀ s, ∀ a ∈ l, v (step s a) = v s) : v (l.foldl step s) = v s :=
  foldl_invariant (I := fun t => v t = v s) rfl fun t a ha ht => (hstep t a ha).trans ht

theorem foldl_simulates {T : Type} {v : S → T} {step' : T → A → T} {s : S} {l : List A}
    (hstep : ∀ s, ∀ a ∈ l, v (step s a) = step' (v s) a) :
    v (l.foldl step s) = l.foldl step' (v s) := by
  induction l generalizing s with
  | nil => rfl
  | cons a l ih =>
      rw [List.foldl_cons, List.foldl_cons, ← hstep s a List.mem_cons_self]
      exact ih fun s b hb => hstep s b (List.mem_cons_of_mem a hb)

theorem foldl_iff {G I : S → Prop} {l : List A} (hI : ∀ s, ∀ a ∈ l, I s → I (step s a))
    (hG : ∀ s, ∀ a ∈ l, I s → (G (step s a) ↔ G s ∧ ok s a)) {s : S} (hs : I s) :
    G (l.foldl step s) ↔ G s ∧ Along step ok s l := by
  induction l generalizing s with
  | nil => exact ⟨fun h => ⟨h, trivial⟩, And.left⟩
  | cons a l ih =>
      have hrest := ih (fun s b hb => hI s b (List.mem_cons_of_mem a hb))
        (fun s b hb => hG s b (List.mem_cons_of_mem a hb)) (hI s a List.mem_cons_self hs)
      rw [List.foldl_cons, hrest, hG s a List.mem_cons_self hs, and_assoc]
      rfl

theorem prefixes_iff {G I : S → Prop} {enabled : S → A → Prop} {s : S} {l : List A}
    (hl : Along step enabled s l) (hI : I s) (hstepI : ∀ s a, I s → enabled s a → I (step s a)) (hG : G s)
    (hstepG : ∀ s a, I s → enabled s a → G s → (G (step s a) ↔ ok s a)) :
    (∀ done, done <+: l → G (done.foldl step s)) ↔ Along step ok s l := by
  induction l using List.reverseRecOn with
  | nil =>
      refine iff_of_true (fun done hdone => ?_) trivial
      rw [List.prefix_nil.mp hdone]
      exact hG
  | append_singleton l a ih =>
      obtain ⟨hl, ha, _⟩ := along_append.mp hl
      have hinv : I (l.foldl step s) := hl.foldl_invariant hI hstepI
      have hlast : (l ++ [a]).foldl step s = step (l.foldl step s) a := List.foldl_append
      rw [along_append, ← ih hl]
      constructor
      · intro hall
        have hgood := hall l (List.prefix_append l [a])
        have hnext := hall (l ++ [a]) (List.prefix_refl _)
        rw [hlast] at hnext
        exact ⟨fun done hdone => hall done (hdone.trans (List.prefix_append l [a])),
          (hstepG _ a hinv ha hgood).mp hnext, trivial⟩
      · rintro ⟨hall, hok, _⟩ done hdone
        rcases List.prefix_concat_iff.mp hdone with rfl | hdone
        · rw [hlast]
          exact (hstepG _ a hinv ha (hall l (List.prefix_refl _))).mpr hok
        · exact hall done hdone

variable (step ok) in
/-- Some element of the list meets the condition in the state that it finds. -/
def Sometime : S → List A → Prop
  | _, [] => False
  | s, a :: l => ok s a ∨ Sometime (step s a) l

theorem sometime_append {s : S} {l l' : List A} :
    Sometime step ok s (l ++ l') ↔ Sometime step ok s l ∨ Sometime step ok (l.foldl step s) l' := by
  induction l generalizing s with
  | nil => simp [Sometime]
  | cons a l ih =>
      change ok s a ∨ Sometime step ok (step s a) (l ++ l') ↔ _
      rw [ih, ← or_assoc]
      rfl

theorem not_sometime {s : S} {l : List A} (h : ∀ s, ∀ a ∈ l, ¬ ok s a) : ¬ Sometime step ok s l := by
  induction l generalizing s with
  | nil => exact id
  | cons a l ih =>
      rintro (ha | hl)
      · exact h s a List.mem_cons_self ha
      · exact ih (fun s b hb => h s b (List.mem_cons_of_mem a hb)) hl

theorem foldl_marked {X : Type} {M : X → S → A → Prop} {I : (X → Prop) → S → Prop} {s : S} {l : List A}
    {R : X → Prop} (hs : I R s)
    (hstep : ∀ R s, ∀ a ∈ l, I R s → I (fun x => R x ∨ M x s a) (step s a)) :
    I (fun x => R x ∨ Sometime step (M x) s l) (l.foldl step s) := by
  induction l generalizing s R with
  | nil => simpa [Sometime] using hs
  | cons a l ih =>
      have hnext := hstep R s a List.mem_cons_self hs
      have hrest := ih hnext fun R s b hb => hstep R s b (List.mem_cons_of_mem a hb)
      have heq : (fun x => (R x ∨ M x s a) ∨ Sometime step (M x) (step s a) l) =
          fun x => R x ∨ Sometime step (M x) s (a :: l) := funext fun x => propext or_assoc
      rw [heq] at hrest
      exact hrest

variable (step ok) in
/-- The states that steps meeting the condition lead to from a start. -/
inductive Reach (start : S → Prop) : S → Prop
  | start {s : S} : start s → Reach start s
  | step {s : S} {a : A} : Reach start s → ok s a → Reach start (step s a)

theorem Reach.invariant {start I : S → Prop} (h0 : ∀ s, start s → I s)
    (hstep : ∀ s a, I s → ok s a → I (step s a)) {s : S} (hs : Reach step ok start s) : I s := by
  induction hs with
  | start h => exact h0 _ h
  | step _ hok ih => exact hstep _ _ ih hok

theorem Reach.imp {start : S → Prop} {ok' : S → A → Prop} (h : ∀ s a, ok s a → ok' s a) {s : S}
    (hs : Reach step ok start s) : Reach step ok' start s := by
  induction hs with
  | start h => exact .start h
  | step _ hok ih => exact .step ih (h _ _ hok)

theorem Reach.of_along {start : S → Prop} {s : S} {l : List A} (hs : Reach step ok start s)
    (hl : Along step ok s l) : Reach step ok start (l.foldl step s) := by
  induction l generalizing s with
  | nil => exact hs
  | cons a l ih => exact ih (hs.step hl.1) hl.2

end MeshcoreAnalyzer.Runs
