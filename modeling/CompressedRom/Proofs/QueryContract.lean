import CompressedRom.Proofs.CacheCoherence

/-!
# Contracts of queries

`Query.Meets` says which spans a query may ask for, how it may stop and what its value is like.
A query that meets a contract passes a refused span on as it is. Contracts are put together along
binds, so each operation has one contract, and it holds for a run over any store.
-/

namespace CompressedRom.Query

variable {α β : Type}

section Runs

lemma run_bind (s : Store) (q : Query α) (f : α → Query β) (c : Cache) :
    (q >>= f).run s c =
      match q.run s c with
      | (.ok a, c) => (f a).run s c
      | (.error failure, c) => (.error failure, c) := by
  induction q generalizing c with
  | done a => rfl
  | stop failure => rfl
  | ask offset len next ih =>
    rw [ask_bind, run, run]
    rcases s.read offset len c with ⟨_ | _, c'⟩
    · rename_i failure
      cases failure with
      | refused cause => exact ih _ c'
      | fault step => rfl
    · exact ih _ c'

lemma run_bind_eq_ok {s : Store} {q : Query α} {f : α → Query β} {c : Cache} {b : β}
    (h : ((q >>= f).run s c).1 = .ok b) :
    ∃ a c', q.run s c = (.ok a, c') ∧ ((f a).run s c').1 = .ok b := by
  rw [run_bind] at h
  rcases hq : q.run s c with ⟨failure | a, c'⟩
  · rw [hq] at h
    simp at h
  · rw [hq] at h
    exact ⟨a, c', rfl, h⟩

lemma run_bind_of_ok {s : Store} {q : Query α} {c : Cache} {a : α} (h : (q.run s c).1 = .ok a)
    (f : α → Query β) : (q >>= f).run s c = (f a).run s (q.run s c).2 := by
  rw [run_bind]
  rcases hq : q.run s c with ⟨result, c'⟩
  rw [hq] at h
  obtain rfl : result = .ok a := h
  rfl

lemma run_bind_of_error {s : Store} {q : Query α} {c : Cache} {failure : Failure}
    (h : (q.run s c).1 = .error failure) (f : α → Query β) :
    ((q >>= f).run s c).1 = .error failure := by
  rw [run_bind]
  rcases hq : q.run s c with ⟨result, c'⟩
  rw [hq] at h
  obtain rfl : result = .error failure := h
  rfl

lemma run_ensure_eq_ok {s : Store} {p : Prop} [Decidable p] {cause : Error} {c c' : Cache}
    {u : Unit} (h : (Query.ensure p cause).run s c = (.ok u, c')) : p ∧ c' = c := by
  unfold Query.ensure at h
  by_cases hp : p
  · rw [if_pos hp] at h
    exact ⟨hp, (congrArg Prod.snd h).symm⟩
  · rw [if_neg hp] at h
    simp [refuse, run] at h

lemma run_attempt (s : Store) (q : Query α) (c : Cache) :
    q.attempt.run s c =
      match q.run s c with
      | (.ok a, c) => (.ok (.ok a), c)
      | (.error (.refused cause), c) => (.ok (.error cause), c)
      | (.error (.fault step), c) => (.error (.fault step), c) := by
  induction q generalizing c with
  | done a => rfl
  | stop failure => cases failure <;> rfl
  | ask offset len next ih =>
    rw [attempt, run, run]
    rcases s.read offset len c with ⟨_ | _, c'⟩
    · rename_i failure
      cases failure with
      | refused cause => exact ih _ c'
      | fault step => rfl
    · exact ih _ c'

lemma run_attempt_of_ok {s : Store} {q : Query α} {c : Cache} {a : α}
    (h : (q.run s c).1 = .ok a) : (q.attempt.run s c).1 = .ok (.ok a) := by
  rw [run_attempt]
  rcases hq : q.run s c with ⟨result, c'⟩
  rw [hq] at h
  obtain rfl : result = .ok a := h
  rfl

lemma run_attempt_of_refused {s : Store} {q : Query α} {c : Cache} {cause : Error}
    (h : (q.run s c).1 = .error (.refused cause)) : (q.attempt.run s c).1 = .ok (.error cause) := by
  rw [run_attempt]
  rcases hq : q.run s c with ⟨result, c'⟩
  rw [hq] at h
  obtain rfl : result = .error (.refused cause) := h
  rfl

lemma run_map (s : Store) (f : α → β) (q : Query α) (c : Cache) :
    (f <$> q).run s c = ((q.run s c).1.map f, (q.run s c).2) := by
  rw [← bind_pure_comp, run_bind]
  rcases q.run s c with ⟨failure | a, c'⟩ <;> rfl

lemma run_mapped (m : Mapping) (q : Query α) (c c' : Cache) :
    q.run (.mapped m) c = ((q.run (.mapped m) c').1, c) := by
  induction q with
  | done a => rfl
  | stop failure => rfl
  | ask offset len next ih =>
    rw [run, run, Store.read, Store.read]
    rcases m.read offset len with failure | span
    · cases failure with
      | refused cause => exact ih _
      | fault step => rfl
    · exact ih _

end Runs

/-- As long as every span that is had has the length asked for, `q` asks for spans that satisfy
`asks` only, ends with the refusal of a span if one is refused, stops of itself only as `stops`
says, and has a value that satisfies `post`. -/
def Meets (asks : Nat → Nat → Prop) (stops : Failure → Prop) (post : α → Prop) : Query α → Prop
  | done a => post a
  | stop failure => stops failure
  | ask offset len next =>
    asks offset len ∧ (∀ cause, next (.error cause) = refuse cause) ∧
      ∀ span : Bytes, span.size = len → Meets asks stops post (next (.ok span))

namespace Meets

variable {asks asks' : Nat → Nat → Prop} {stops stops' : Failure → Prop} {post post' : α → Prop}
  {q : Query α}

lemma mono (hq : q.Meets asks stops post) (ha : ∀ offset len, asks offset len → asks' offset len)
    (hs : ∀ failure, stops failure → stops' failure) (hp : ∀ a, post a → post' a) :
    q.Meets asks' stops' post' := by
  induction q with
  | done a => exact hp a hq
  | stop failure => exact hs failure hq
  | ask offset len next ih =>
    obtain ⟨h1, h2, h3⟩ := hq
    exact ⟨ha _ _ h1, h2, fun span hspan => ih _ (h3 span hspan)⟩

lemma mono_asks (hq : q.Meets asks stops post)
    (h : ∀ offset len, asks offset len → asks' offset len) : q.Meets asks' stops post :=
  hq.mono h (fun _ hf => hf) fun _ ha => ha

lemma mono_stops (hq : q.Meets asks stops post) (h : ∀ failure, stops failure → stops' failure) :
    q.Meets asks stops' post :=
  hq.mono (fun _ _ ho => ho) h fun _ ha => ha

lemma mono_post (hq : q.Meets asks stops post) (h : ∀ a, post a → post' a) :
    q.Meets asks stops post' :=
  hq.mono (fun _ _ ho => ho) (fun _ hf => hf) h

lemma bind {f : α → Query β} {post' : β → Prop} (hq : q.Meets asks stops post)
    (hf : ∀ a, post a → (f a).Meets asks stops post') : (q >>= f).Meets asks stops post' := by
  induction q with
  | done a => exact hf a hq
  | stop failure => exact hq
  | ask offset len next ih =>
    obtain ⟨h1, h2, h3⟩ := hq
    refine ⟨h1, fun cause => ?_, fun span hspan => ih _ (h3 span hspan)⟩
    change next (.error cause) >>= f = Query.refuse cause
    rw [h2, refuse_bind]

lemma pure {a : α} (h : post a) : (Pure.pure a : Query α).Meets asks stops post := h

lemma refuse {cause : Error} (h : stops (.refused cause)) :
    (Query.refuse cause : Query α).Meets asks stops post := h

lemma stop {failure : Failure} (h : stops failure) :
    (Query.stop failure : Query α).Meets asks stops post := h

lemma ensure {p : Prop} [Decidable p] {cause : Error} (h : ¬p → stops (.refused cause)) :
    (Query.ensure p cause).Meets asks stops fun _ => p := by
  unfold Query.ensure
  by_cases hp : p
  · rw [if_pos hp]
    exact hp
  · rw [if_neg hp]
    exact h hp

lemma within {x : Except Fault α} (h : ∀ step, x = .error step → stops (.fault step)) :
    (liftM x : Query α).Meets asks stops fun a => x = .ok a := by
  cases x with
  | ok a => exact rfl
  | error step => exact h step rfl

lemma add {bits a b : Nat} (h : 2 ^ bits ≤ a + b → stops (.fault .overflow)) :
    (liftM (Word.add bits a b) : Query Nat).Meets asks stops fun n => n = a + b ∧ n < 2 ^ bits := by
  by_cases hlt : a + b < 2 ^ bits
  · rw [Word.add_eq_ok hlt]
    exact ⟨rfl, hlt⟩
  · rw [Word.add, if_neg hlt]
    exact h (Nat.le_of_not_lt hlt)

lemma span {offset len : Nat} (h : asks offset len) :
    (Query.span offset len).Meets asks stops fun b => b.size = len :=
  ⟨h, fun _ => rfl, fun _ hb => hb⟩

lemma foldlM {f : β → α → Query β} {l : List α} {inv : β → Prop}
    (hf : ∀ b, inv b → ∀ a ∈ l, (f b a).Meets asks stops inv) {b : β} (hb : inv b) :
    (l.foldlM f b).Meets asks stops inv := by
  induction l generalizing b with
  | nil => exact hb
  | cons a l ih =>
    rw [List.foldlM_cons]
    exact (hf b hb a List.mem_cons_self).bind fun b' hb' =>
      ih (fun b hb a ha => hf b hb a (List.mem_cons_of_mem _ ha)) hb'

lemma of_ask {offset len : Nat} {next : Except Error Bytes → Query α}
    (hq : (ask offset len next).Meets asks stops post) :
    asks offset len ∧ (∀ cause, next (.error cause) = Query.refuse cause) ∧
      ∀ span : Bytes, span.size = len → (next (.ok span)).Meets asks stops post := hq

lemma of_stop {failure : Failure} (hq : (Query.stop failure : Query α).Meets asks stops post) :
    stops failure := hq

/-- A contract over a store whose reads fail only as `fails` says. -/
lemma run {s : Store} {fails : Failure → Prop}
    (hread : ∀ offset len c, asks offset len →
      match (s.read offset len c).1 with
      | .ok span => span.size = len
      | .error failure => fails failure)
    (hq : q.Meets asks stops post) (c : Cache) :
    match (q.run s c).1 with
    | .ok a => post a
    | .error failure => stops failure ∨ fails failure := by
  induction q generalizing c with
  | done a => exact hq
  | stop failure => exact .inl hq
  | ask offset len next ih =>
    obtain ⟨h1, h2, h3⟩ := hq
    have hr := hread offset len c h1
    rw [Query.run]
    rcases hs : s.read offset len c with ⟨failure | span, c'⟩
    · rw [hs] at hr
      cases failure with
      | refused cause =>
        dsimp only
        rw [h2]
        exact .inr hr
      | fault step => exact .inr hr
    · rw [hs] at hr
      exact ih _ (h3 span hr) c'

end Meets

attribute [irreducible] Meets

end CompressedRom.Query
