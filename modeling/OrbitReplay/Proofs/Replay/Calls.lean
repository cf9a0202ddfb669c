import OrbitReplay.Proofs.Replay.Chain

namespace OrbitReplay.Replay

open OrbitReplay.Dense (Model)

inductive Call (α : Type) where
  | query (q : Query α)
  | clone
  | hold (name : String)
  | read (c : Channel) (instant : Instant α)
  | inspect (c : Channel)

variable {μ α : Type} [Scalar α] [Model μ α]

namespace Engine

/-- What an engine answers to a call, and the engine after it. A clone and an extractor are given
themselves, not by a number. -/
def reply (e : Engine μ α) : Call α → Except (Failure α) (Answer μ α) × Engine μ α
  | .query q => e.answer q
  | .clone => (e.clone.map .engine, e)
  | .hold name => ((e.channel name).map (.extractor · true), e)
  | .read c instant =>
    let (r, e) := e.read c instant.toDate
    (r.map (.values ∘ .vector), e)
  | .inspect c => (.ok (.extractor c true), e)

/-- The answers of an engine to which nothing but the given calls happens, each with the engine
after it. -/
def trace (e : Engine μ α) : List (Call α) → List (Except (Failure α) (Answer μ α) × Engine μ α)
  | [] => []
  | c :: cs => e.reply c :: (e.reply c).2.trace cs

end Engine

namespace Session

def call? (s : Session μ α) (i : Nat) : Request α → Option (Call α)
  | .query j q => if j = i then some (.query q) else none
  | .clone j => if j = i then some .clone else none
  | .drop _ => none
  | .hold j name => if j = i then some (.hold name) else none
  | .readHeld k instant =>
    (s.held[k]?).bind fun x ↦ if x.engine = i then some (.read x.channel instant) else none
  | .describeHeld k =>
    (s.held[k]?).bind fun x ↦ if x.engine = i then some (.inspect x.channel) else none

def calls (s : Session μ α) (i : Nat) : List (Request α) → List (Call α)
  | [] => []
  | r :: rs =>
    match s.call? i r with
    | some c => c :: (s.step r).2.calls i rs
    | none => (s.step r).2.calls i rs

/-- An answer with the new clone or the new extractor in place of its number. -/
def lookUp (s : Session μ α) : Request α → Answer μ α → Answer μ α
  | .clone _, .index n =>
    match s.engine? n with
    | some e => .engine e
    | none => .absent
  | .hold _ _, .index n =>
    match s.held[n]? with
    | some x => .extractor x.channel (s.isAttached x)
    | none => .absent
  | _, a => a

/-- The answers to those requests that concern an engine, each with what then stands in the place of
the engine. -/
def story (s : Session μ α) (i : Nat) :
    List (Request α) → List (Except (Failure α) (Answer μ α) × Option (Engine μ α))
  | [] => []
  | r :: rs =>
    let (a, t) := s.step r
    match s.call? i r with
    | some _ => (a.map (t.lookUp r), t.engine? i) :: t.story i rs
    | none => t.story i rs

variable {s : Session μ α} {i : Nat} {e : Engine μ α} {r : Request α}

omit [Scalar α] [Model μ α] in
theorem map_lookUp (h : s.lookUp r = id) (a : Except (Failure α) (Answer μ α)) :
    a.map (s.lookUp r) = a := by
  rw [h, Except.map_id]
  rfl

/-- A request that concerns an engine gets the answer of the engine and leaves it as the call
does. -/
theorem step_call (he : s.engine? i = some e) {c : Call α} (hc : s.call? i r = some c) :
    (s.step r).1.map ((s.step r).2.lookUp r) = (e.reply c).1 ∧
      (s.step r).2.engine? i = some (e.reply c).2 := by
  cases r with
  | query j q =>
    obtain ⟨rfl, ⟨⟩⟩ := Option.ite_none_right_eq_some.1 hc
    rw [step, he]
    exact ⟨map_lookUp rfl _, engine?_setEngine_self he _⟩
  | clone j =>
    obtain ⟨rfl, ⟨⟩⟩ := Option.ite_none_right_eq_some.1 hc
    rw [step, he]
    simp only [Engine.reply]
    cases e.clone with
    | error f => exact ⟨rfl, he⟩
    | ok f =>
      have hold : ({ s with engines := s.engines ++ [some f] } : Session μ α).engine? j =
          some e := by
        rw [engine?, List.getElem?_append_left (lt_length_of_engine? he)]
        exact he
      refine ⟨?_, hold⟩
      simp only [Except.map, lookUp, engine?_append_length]
  | drop j => cases hc
  | hold j name =>
    obtain ⟨rfl, ⟨⟩⟩ := Option.ite_none_right_eq_some.1 hc
    rw [step, he]
    simp only [Engine.reply]
    cases e.channel name with
    | error f => exact ⟨rfl, he⟩
    | ok c =>
      refine ⟨?_, he⟩
      have hattached : ({ s with held := s.held ++ [⟨c, j⟩] } : Session μ α).isAttached ⟨c, j⟩ :=
        Option.isSome_of_eq_some he
      simp only [Except.map, lookUp, List.getElem?_concat_length, hattached]
  | readHeld k instant =>
    obtain ⟨x, hx, hxi⟩ := Option.bind_eq_some_iff.1 hc
    obtain ⟨rfl, ⟨⟩⟩ := Option.ite_none_right_eq_some.1 hxi
    rw [step, hx]
    simp only [read, he, Engine.reply]
    exact ⟨map_lookUp rfl _, engine?_setEngine_self he _⟩
  | describeHeld k =>
    obtain ⟨x, hx, hxi⟩ := Option.bind_eq_some_iff.1 hc
    obtain ⟨rfl, ⟨⟩⟩ := Option.ite_none_right_eq_some.1 hxi
    have hattached : s.isAttached x := Option.isSome_of_eq_some he
    rw [step, hx]
    exact ⟨by simp only [Except.map, lookUp, Engine.reply, hattached], he⟩

omit [Scalar α] [Model μ α] in
theorem query_of_call? {q : Query α} (h : s.call? i r = some (.query q)) : r = .query i q := by
  cases r with
  | query j q' =>
    obtain ⟨rfl, ⟨⟩⟩ := Option.ite_none_right_eq_some.1 h
    rfl
  | clone j | hold j name => cases (Option.ite_none_right_eq_some.1 h).2
  | drop j => cases h
  | readHeld k instant | describeHeld k =>
    obtain ⟨x, -, hx⟩ := Option.bind_eq_some_iff.1 h
    cases (Option.ite_none_right_eq_some.1 hx).2

/-- A request that does not concern an engine leaves what stands in its place. -/
theorem step_other (hi : i < s.engines.length) (hc : s.call? i r = none) (hr : r ≠ .drop i) :
    (s.step r).2.engines[i]? = s.engines[i]? := by
  cases r with
  | query j q =>
    have hj : j ≠ i := by simpa [call?] using hc
    rw [step]
    split
    · rfl
    · exact getElem?_setEngine_ne hj _
  | clone j =>
    rw [step]
    split
    · rfl
    · split
      · rfl
      · exact List.getElem?_append_left hi
  | drop j => exact List.getElem?_set_ne fun hj ↦ hr (congrArg Request.drop hj)
  | hold j name =>
    rw [step]
    split
    · rfl
    · split <;> rfl
  | readHeld k instant =>
    rw [step]
    split
    · rfl
    · next x hx =>
      have hj : x.engine ≠ i := by simpa [call?, hx] using hc
      rw [read]
      split
      · rfl
      · exact getElem?_setEngine_ne hj _
  | describeHeld k =>
    rw [step]
    split <;> rfl

theorem step_absent (he : s.engine? i = none) {c : Call α} (hc : s.call? i r = some c) :
    (s.step r).2 = s := by
  cases r with
  | query j q | clone j | hold j name =>
    obtain ⟨rfl, -⟩ := Option.ite_none_right_eq_some.1 hc
    rw [step, he]
  | drop j => cases hc
  | readHeld k instant =>
    obtain ⟨x, hx, hxi⟩ := Option.bind_eq_some_iff.1 hc
    obtain ⟨rfl, -⟩ := Option.ite_none_right_eq_some.1 hxi
    rw [step, hx]
    simp only [read, he]
  | describeHeld k =>
    obtain ⟨x, hx, -⟩ := Option.bind_eq_some_iff.1 hc
    rw [step, hx]

/-- In the place of an engine there is afterwards nothing, or the engine as it was or as a call left
it. An empty place stays empty. -/
theorem step_place {p : Option (Engine μ α)} (hp : s.engines[i]? = some p) (r : Request α) :
    (s.step r).2.engines[i]? = some none ∨
      ∃ e e', p = some e ∧ (s.step r).2.engines[i]? = some (some e') ∧
        (e' = e ∨ ∃ c, s.call? i r = some c ∧ (s.step r).1.map ((s.step r).2.lookUp r) =
          (e.reply c).1 ∧ e' = (e.reply c).2) := by
  have hlt : i < s.engines.length := (List.getElem?_eq_some_iff.1 hp).1
  have hengine : s.engine? i = p := by rw [engine?, hp, Option.join_some]
  by_cases hr : r = .drop i
  · subst hr
    exact .inl (List.getElem?_set_self hlt)
  cases hc : s.call? i r with
  | none =>
    rw [step_other hlt hc hr, hp]
    cases p with
    | none => exact .inl rfl
    | some e => exact .inr ⟨e, e, rfl, rfl, .inl rfl⟩
  | some c =>
    cases p with
    | none =>
      rw [step_absent hengine hc, hp]
      exact .inl rfl
    | some e =>
      obtain ⟨hanswer, hafter⟩ := step_call hengine hc
      rw [engine?, Option.join_eq_some_iff] at hafter
      exact .inr ⟨e, _, rfl, hafter, .inr ⟨c, rfl, hanswer, rfl⟩⟩

theorem run_gone (h : s.engines[i]? = some none) (rs : List (Request α)) :
    (s.run rs).engines[i]? = some none := by
  induction rs generalizing s with
  | nil => exact h
  | cons r rs ih =>
    rcases step_place h r with hgone | ⟨_, _, hsome, -⟩
    · exact ih hgone
    · cases hsome

/-- Whatever every call preserves holds between an engine and what becomes of it. -/
theorem run_rel {R : Engine μ α → Engine μ α → Prop} (hrefl : ∀ e, R e e)
    (htrans : ∀ {e f g}, R e f → R f g → R e g) (hreply : ∀ e c, R e (e.reply c).2)
    {e' : Engine μ α} (he : s.engine? i = some e) {rs : List (Request α)}
    (he' : (s.run rs).engine? i = some e') : R e e' := by
  induction rs generalizing s e with
  | nil =>
    cases he.symm.trans he'
    exact hrefl _
  | cons r rs ih =>
    -- An engine that is there at the end was there all along, since no place is used again.
    rcases step_place (Option.join_eq_some_iff.1 he) r with hgone | ⟨f, f', hf, hf', hstep⟩
    · have hnone : ((s.step r).2.run rs).engine? i = none := by
        rw [engine?, run_gone hgone, Option.join_some]
      cases hnone.symm.trans he'
    · cases hf
      refine htrans ?_ (ih (Option.join_eq_some_iff.2 hf') he')
      rcases hstep with rfl | ⟨c, -, -, rfl⟩
      · exact hrefl f'
      · exact hreply e c

/-- As long as an engine is there, it goes through what is asked of it as it would alone. -/
theorem story_eq_trace (he : s.engine? i = some e) {rs : List (Request α)} (hrs : .drop i ∉ rs) :
    s.story i rs = (e.trace (s.calls i rs)).map fun p ↦ (p.1, some p.2) := by
  induction rs generalizing s e with
  | nil => rfl
  | cons r rs ih =>
    obtain ⟨hr, hrs⟩ := not_or.1 (mt List.mem_cons.2 hrs)
    rw [story, calls]
    cases hc : s.call? i r with
    | none =>
      have he' : (s.step r).2.engine? i = some e := by
        rw [engine?, step_other (lt_length_of_engine? he) hc (Ne.symm hr)]
        exact he
      exact ih he' hrs
    | some c =>
      obtain ⟨hanswer, hengine⟩ := step_call he hc
      simp only [Engine.trace, List.map_cons]
      rw [← hanswer, ← hengine, ← ih hengine hrs]

end Session

end OrbitReplay.Replay
