import OrbitReplay.Proofs.Replay.Layout
import OrbitReplay.Proofs.Replay.Position

namespace OrbitReplay.Replay

open OrbitReplay.Dense (Model Source Brings Settles exists_brings)

variable {μ α : Type}

/-- How the failure of a model or a decoder is reported. The library's own fault comes through
unchanged; anything else becomes the cause of a failure to decode. -/
inductive Reported (date : α) : Failure α → Fault α → Prop
  | own (f : Fault α) : Reported date (.fault f) f
  | cause (m : Mishap α) : Reported date (.mishap m) (.undecodable date m)

theorem Reported.unique {date : α} {f : Failure α} {g g' : Fault α} (h : Reported date f g)
    (h' : Reported date f g') : g = g' := by
  cases h <;> cases h' <;> rfl

theorem Engine.wrap_cases (date : α) {β : Type} (r : Except (Failure α) β) :
    (∃ f g, r = .error f ∧ Reported date f g ∧ wrap date r = .error (.fault g)) ∨
      ∃ x, r = .ok x ∧ wrap date r = .ok x := by
  rcases r with (f | m) | x
  · exact .inl ⟨_, f, rfl, .own f, rfl⟩
  · exact .inl ⟨_, _, rfl, .cause m, rfl⟩
  · exact .inr ⟨x, rfl, rfl⟩

inductive Task where
  | decode
  | slice (c : Channel)

variable [Scalar α] [Model μ α]

inductive Does (date : α) (e : Engine μ α) : Task → Option (Fault α) → Engine μ α → Prop
  | lost {t : Task} {f : Failure α} {g : Fault α} {m : μ} :
      Brings (date - e.start) e.model (.error f) m → Reported date f g →
      Does date e t (some g) { e with model := m }
  | undecoded {raw : List α} {f : Failure α} {g : Fault α} {m : μ} :
      Brings (date - e.start) e.model (.ok raw) m → e.decoder date (.vector raw) = .error f →
      Reported date f g → Does date e .decode (some g) { e with model := m }
  | decoded {raw : List α} {s : State α} {m : μ} :
      Brings (date - e.start) e.model (.ok raw) m → e.decoder date (.vector raw) = .ok s →
      Does date e .decode none { e with model := m }
  | short {c : Channel} {raw : List α} {m : μ} :
      Brings (date - e.start) e.model (.ok raw) m → raw.length < c.stop →
      Does date e (.slice c) (some (.shortRaw date raw.length c.name c.offset c.stop))
        { e with model := m }
  | sliced {c : Channel} {raw : List α} {m : μ} :
      Brings (date - e.start) e.model (.ok raw) m → c.stop ≤ raw.length →
      Does date e (.slice c) none { e with model := m }

inductive DoesAll (date : α) : List Task → Engine μ α → Option (Fault α) → Engine μ α → Prop
  | nil (e : Engine μ α) : DoesAll date [] e none e
  | stop {t : Task} {ts : List Task} {e e' : Engine μ α} {f : Fault α} :
      Does date e t (some f) e' → DoesAll date (t :: ts) e (some f) e'
  | next {t : Task} {ts : List Task} {e e' e'' : Engine μ α} {r : Option (Fault α)} :
      Does date e t none e' → DoesAll date ts e' r e'' → DoesAll date (t :: ts) e r e''

section Tasks

variable {date : α} {e e' e'' : Engine μ α} {t : Task} {ts us : List Task} {r r' : Option (Fault α)}

theorem Does.unique (h : Does date e t r e') (h' : Does date e t r' e'') : r = r' ∧ e' = e'' := by
  cases h with
  | lost hb hf =>
    cases h' with
    | lost hb' hf' =>
      obtain ⟨hr, rfl⟩ := hb.unique hb'
      cases hr
      exact ⟨congrArg some (hf.unique hf'), rfl⟩
    | undecoded hb' | decoded hb' | short hb' | sliced hb' => cases (hb.unique hb').1
  | undecoded hb hd hf =>
    cases h' with
    | lost hb' => cases (hb.unique hb').1
    | undecoded hb' hd' hf' =>
      obtain ⟨hr, rfl⟩ := hb.unique hb'
      cases hr
      cases hd.symm.trans hd'
      exact ⟨congrArg some (hf.unique hf'), rfl⟩
    | decoded hb' hd' =>
      cases (hb.unique hb').1
      cases hd.symm.trans hd'
  | decoded hb hd =>
    cases h' with
    | lost hb' => cases (hb.unique hb').1
    | undecoded hb' hd' =>
      cases (hb.unique hb').1
      cases hd.symm.trans hd'
    | decoded hb' => exact ⟨rfl, by rw [(hb.unique hb').2]⟩
  | short hb hc =>
    cases h' with
    | lost hb' => cases (hb.unique hb').1
    | short hb' =>
      obtain ⟨hr, rfl⟩ := hb.unique hb'
      cases hr
      exact ⟨rfl, rfl⟩
    | sliced hb' hc' =>
      cases (hb.unique hb').1
      exact absurd hc (Nat.not_lt.2 hc')
  | sliced hb hc =>
    cases h' with
    | lost hb' => cases (hb.unique hb').1
    | short hb' hc' =>
      cases (hb.unique hb').1
      exact absurd hc' (Nat.not_lt.2 hc)
    | sliced hb' => exact ⟨rfl, by rw [(hb.unique hb').2]⟩

theorem DoesAll.unique (h : DoesAll date ts e r e') (h' : DoesAll date ts e r' e'') :
    r = r' ∧ e' = e'' := by
  induction h generalizing r' e'' with
  | nil e =>
    cases h'
    exact ⟨rfl, rfl⟩
  | stop hd =>
    cases h' with
    | stop hd' => exact hd.unique hd'
    | next hd' => cases (hd.unique hd').1
  | next hd _ ih =>
    cases h' with
    | stop hd' => cases (hd.unique hd').1
    | next hd' hall =>
      obtain ⟨-, rfl⟩ := hd.unique hd'
      exact ih hall

theorem Does.engine (h : Does date e t r e') : ∃ m, e' = { e with model := m } := by
  cases h <;> exact ⟨_, rfl⟩

theorem DoesAll.engine (h : DoesAll date ts e r e') : ∃ m, e' = { e with model := m } := by
  induction h with
  | nil e => exact ⟨e.model, rfl⟩
  | stop hd => exact hd.engine
  | next hd _ ih =>
    obtain ⟨m, rfl⟩ := hd.engine
    exact ih

theorem DoesAll.append_of_fault {f : Fault α} (h : DoesAll date ts e (some f) e')
    (us : List Task) : DoesAll date (ts ++ us) e (some f) e' := by
  generalize hr : some f = r at h
  induction h with
  | nil e => cases hr
  | stop hd => exact .stop hd
  | next hd _ ih => exact .next hd (ih hr)

theorem DoesAll.append (h : DoesAll date ts e none e') (h' : DoesAll date us e' r e'') :
    DoesAll date (ts ++ us) e r e'' := by
  generalize hn : none = n at h
  induction h with
  | nil e => exact h'
  | stop hd => cases hn
  | next hd _ ih => exact .next hd (ih h' hn)

/-- On a model that shows the same vector again, the first channel that does not fit is reported. -/
theorem doesAll_slices (hs : Settles μ) {raw : List α} {m : μ}
    (hb : Brings (date - e.start) e.model (.ok raw) m) {pre : List Channel}
    (hpre : ∀ d ∈ pre, d.stop ≤ raw.length) {c : Channel} (hc : raw.length < c.stop)
    (post : List Channel) :
    ∃ e', DoesAll date ((pre ++ c :: post).map .slice) e
      (some (.shortRaw date raw.length c.name c.offset c.stop)) e' := by
  induction pre generalizing e m with
  | nil => exact ⟨_, .stop (.short hb hc)⟩
  | cons d pre ih =>
    obtain ⟨m', hb'⟩ := hb.again hs
    obtain ⟨e', hall⟩ := ih (e := { e with model := m }) hb' fun d hd ↦
      hpre d (List.mem_cons_of_mem _ hd)
    exact ⟨e', .next (.sliced hb (hpre d List.mem_cons_self)) hall⟩

end Tasks

namespace Engine

inductive Tells {β : Type} (date : α) (ts : List Task) (e : Engine μ α) :
    Except (Failure α) β × Engine μ α → Prop
  | fault {f : Fault α} {e' : Engine μ α} :
      DoesAll date ts e (some f) e' → Tells date ts e (.error (.fault f), e')
  | ok {x : β} {e' : Engine μ α} : DoesAll date ts e none e' → Tells date ts e (.ok x, e')

variable {β γ : Type} {date : α} {ts us : List Task} {e e' : Engine μ α}
  {p : Except (Failure α) β × Engine μ α}

theorem Tells.eq_error_iff (h : Tells date ts e p) {f : Failure α} :
    p = (.error f, e') ↔ ∃ g, f = .fault g ∧ DoesAll date ts e (some g) e' := by
  cases h with
  | fault hall =>
    refine ⟨fun hp ↦ ?_, fun ⟨g, hf, hall'⟩ ↦ ?_⟩
    · cases hp
      exact ⟨_, rfl, hall⟩
    · obtain ⟨hr, rfl⟩ := hall.unique hall'
      cases hr
      rw [hf]
  | ok hall =>
    refine ⟨fun hp ↦ (by cases hp), fun ⟨g, _, hall'⟩ ↦ ?_⟩
    cases (hall.unique hall').1

theorem Tells.map (h : Tells date ts e p) (f : β → γ) : Tells date ts e (p.1.map f, p.2) := by
  cases h with
  | fault hall => exact .fault hall
  | ok hall => exact .ok hall

theorem Tells.andThen (h : Tells date ts e p)
    {g : β → Engine μ α → Except (Failure α) γ × Engine μ α}
    (hg : ∀ x m, Tells date us { e with model := m } (g x { e with model := m })) :
    Tells date (ts ++ us) e (andThen p g) := by
  cases h with
  | fault hall => exact .fault (hall.append_of_fault us)
  | @ok x e' hall =>
    obtain ⟨m, rfl⟩ := hall.engine
    have hnext := hg x m
    rw [Engine.andThen]
    generalize g x { e with model := m } = q at hnext
    cases hnext with
    | fault hall' => exact .fault (hall.append hall')
    | ok hall' => exact .ok (hall.append hall')

theorem stateAt_tells (hc : e.covers date = true) : Tells date [.decode] e (e.stateAt date) := by
  obtain ⟨r, m, hb⟩ := exists_brings (date - e.start) e.model
  rw [stateAt_eq, rawAt_of_brings hc hb]
  rcases wrap_cases date r with ⟨f, g, rfl, hg, hr⟩ | ⟨raw, rfl, hr⟩ <;> rw [hr]
  · exact .fault (.stop (.lost hb hg))
  · rw [Engine.andThen]
    rcases wrap_cases date (e.decoder date (.vector raw)) with
      ⟨f, g, hd, hg, hr⟩ | ⟨s, hd, hr⟩ <;> rw [hr]
    · exact .fault (.stop (.undecoded hb hd hg))
    · exact .ok (.next (.decoded hb hd) (.nil _))

theorem read_tells (hc : e.covers date = true) (c : Channel) :
    Tells date [.slice c] e (e.read c date) := by
  obtain ⟨r, m, hb⟩ := exists_brings (date - e.start) e.model
  rw [read_eq, rawAt_of_brings hc hb]
  rcases wrap_cases date r with ⟨f, g, rfl, hg, hr⟩ | ⟨raw, rfl, hr⟩ <;> rw [hr]
  · exact .fault (.stop (.lost hb hg))
  · rw [Engine.andThen]
    split
    · next hshort => exact .fault (.stop (.short hb hshort))
    · next hfit => exact .ok (.next (.sliced hb (Nat.not_lt.1 hfit)) (.nil _))

theorem attachAll_tells (hc : e.covers date = true) (cs : List Channel) (s : State α) :
    Tells date (cs.map .slice) e (attachAll date cs s e) := by
  induction cs generalizing s e with
  | nil => exact .ok (.nil e)
  | cons c cs ih =>
    have hrest (xs : List α) (m : μ) : Tells date (cs.map .slice) { e with model := m }
        (attachAll date cs (s.attach c.name (.vector xs)) { e with model := m }) :=
      ih (e := { e with model := m }) hc _
    rw [attachAll_cons]
    exact (read_tells hc c).andThen hrest

theorem propagate_tells (hc : e.covers date = true) :
    Tells date (.decode :: e.layout.channels.map .slice) e (e.propagate date) := by
  have hrest (s : State α) (m : μ) : Tells date (e.layout.channels.map .slice)
      { e with model := m } (attachAll date e.layout.channels s { e with model := m }) :=
    attachAll_tells (e := { e with model := m }) hc e.layout.channels s
  rw [propagate_eq]
  exact (stateAt_tells hc).andThen hrest

end Engine

/-- The date that a query looks at, and its tasks there. -/
def Query.plan (e : Engine μ α) : Query α → Option (α × List Task)
  | .stateAt date | .orbitAt date | .massAt date => some (date, [.decode])
  | .initialState => some (e.low, [.decode])
  | .propagate date => some (date, .decode :: e.layout.channels.map .slice)
  | .additionalState name date => (e.layout.find? name).map fun c ↦ (date, [.slice c])
  | .extract name instant => (e.layout.find? name).map fun c ↦ (instant.toDate, [.slice c])
  | .register .. | .channel _ | .describe | .resetInitialState _ => none

def Query.name? : Query α → Option String
  | .additionalState name _ | .extract name _ | .channel name => some name
  | _ => none

namespace Engine

variable {date : α} {ts : List Task} {e : Engine μ α} {q : Query α} {name : String}

omit [Scalar α] [Model μ α] in
theorem channel_of_unknown (h : name ∉ e.layout.channels.map Channel.name) :
    e.channel name = .error (.fault (.unknownChannel name)) := by
  rw [channel, Layout.channel, Layout.find?_eq_none_iff.2 h]

theorem stateAt_of_not_covers (hc : ¬ e.covers date = true) :
    e.stateAt date = (.error (.fault (.outOfRange date e.low e.high)), e) := by
  rw [stateAt_eq, rawAt_of_not_covers hc]
  rfl

theorem read_of_not_covers (hc : ¬ e.covers date = true) (c : Channel) :
    e.read c date = (.error (.fault (.outOfRange date e.low e.high)), e) := by
  rw [read_eq, rawAt_of_not_covers hc]
  rfl

theorem answer_of_unknown (hq : q.name? = some name)
    (h : name ∉ e.layout.channels.map Channel.name) :
    e.answer q = (.error (.fault (.unknownChannel name)), e) := by
  cases q with
  | additionalState n d | extract n i =>
    cases hq
    rw [answer, readNamed, channel_of_unknown h]
    rfl
  | channel n =>
    cases hq
    rw [answer, channel_of_unknown h]
    rfl
  | stateAt | propagate | orbitAt | massAt | initialState | register | describe
  | resetInitialState => cases hq

theorem answer_of_not_covers (h : q.plan e = some (date, ts)) (hc : ¬ e.covers date = true) :
    e.answer q = (.error (.fault (.outOfRange date e.low e.high)), e) := by
  cases q with
  | stateAt d | orbitAt d | massAt d =>
    cases h
    simp only [answer, orbitAt, massAt, stateAt_of_not_covers hc]
    rfl
  | initialState =>
    cases h
    rw [answer, initialState, stateAt_of_not_covers hc]
    rfl
  | propagate d =>
    cases h
    rw [answer, propagate_eq, stateAt_of_not_covers hc]
    rfl
  | additionalState name d | extract name instant =>
    obtain ⟨c, hfind, hplan⟩ := Option.map_eq_some_iff.1 h
    cases hplan
    rw [answer, readNamed_of_find? _ _ hfind, read_of_not_covers hc]
    rfl
  | register | channel | describe | resetInitialState => cases h

theorem answer_tells (h : q.plan e = some (date, ts)) (hc : e.covers date = true) :
    Tells date ts e (e.answer q) := by
  cases q with
  | stateAt d =>
    cases h
    exact (stateAt_tells hc).map _
  | orbitAt d | massAt d =>
    cases h
    exact Tells.map ((stateAt_tells hc).map _) _
  | initialState =>
    cases h
    exact (stateAt_tells hc).map _
  | propagate d =>
    cases h
    exact (propagate_tells hc).map _
  | additionalState name d | extract name instant =>
    obtain ⟨c, hfind, hplan⟩ := Option.map_eq_some_iff.1 h
    cases hplan
    rw [answer, readNamed_of_find? _ _ hfind]
    exact (read_tells hc c).map _
  | register | channel | describe | resetInitialState => cases h

end Engine

namespace Session

variable {s : Session μ α} {e : Engine μ α} {i : Nat}

omit [Scalar α] [Model μ α] in
theorem setEngine_same (h : s.engine? i = some e) : s.setEngine i e = s := by
  rw [engine?, Option.join_eq_some_iff, List.getElem?_eq_some_iff] at h
  obtain ⟨hi, he⟩ := h
  rw [setEngine, ← he, List.set_getElem_self]

/-- A request that makes an engine read its model: the engine's number, the engine, the date and
the tasks there. -/
inductive Plans (s : Session μ α) : Request α → Nat → Engine μ α → α → List Task → Prop
  | query {i : Nat} {e : Engine μ α} {q : Query α} {date : α} {ts : List Task} :
      s.engine? i = some e → q.plan e = some (date, ts) → Plans s (.query i q) i e date ts
  | held {k : Nat} {x : Extractor} {e : Engine μ α} {instant : Instant α} :
      s.held[k]? = some x → s.engine? x.engine = some e →
      Plans s (.readHeld k instant) x.engine e instant.toDate [.slice x.channel]

/-- How requests to a session fail, in the order in which they look for what can go wrong. -/
structure FailsInOrder (s : Session μ α) : Prop where
  detached {k : Nat} {x : Extractor} : s.held[k]? = some x → s.engine? x.engine = none →
    ∀ instant, s.step (.readHeld k instant) =
      (.error (.fault (.detachedChannel x.channel.name)), s)
  unknown {i : Nat} {e : Engine μ α} {name : String} : s.engine? i = some e →
    name ∉ e.layout.channels.map Channel.name →
    s.step (.hold i name) = (.error (.fault (.unknownChannel name)), s) ∧
      ∀ q, q.name? = some name →
        s.step (.query i q) = (.error (.fault (.unknownChannel name)), s)
  outside {r : Request α} {i : Nat} {e : Engine μ α} {date : α} {ts : List Task} :
    s.Plans r i e date ts → ¬ (e.low ≤ date ∧ date ≤ e.high) →
    s.step r = (.error (.fault (.outOfRange date e.low e.high)), s)
  within {r : Request α} {i : Nat} {e : Engine μ α} {date : α} {ts : List Task} :
    s.Plans r i e date ts → e.low ≤ date ∧ date ≤ e.high → ∀ f s',
    (s.step r = (.error f, s') ↔
      ∃ g e', f = .fault g ∧ s' = s.setEngine i e' ∧ DoesAll date ts e (some g) e')
  /-- Propagation decodes first, then reads the channels in the order of their registration. -/
  channels {i j : Nat} {e : Engine μ α} {date : α} {raw : List α} {m : μ} {state : State α}
    {c : Channel} : Settles μ → s.engine? i = some e → e.low ≤ date ∧ date ≤ e.high →
    Brings (date - e.start) e.model (.ok raw) m → e.decoder date (.vector raw) = .ok state →
    e.layout.channels[j]? = some c → (∀ d ∈ e.layout.channels.take j, d.stop ≤ raw.length) →
    raw.length < c.stop →
    (s.step (.query i (.propagate date))).1 =
      .error (.fault (.shortRaw date raw.length c.name c.offset c.stop))

theorem step_query (h : s.engine? i = some e) (q : Query α) :
    s.step (.query i q) = ((e.answer q).1, s.setEngine i (e.answer q).2) := by
  rw [step, h]

theorem step_readHeld {k : Nat} {x : Extractor} (hx : s.held[k]? = some x)
    (he : s.engine? x.engine = some e) (instant : Instant α) :
    s.step (.readHeld k instant) =
      ((e.read x.channel instant.toDate).1.map (.values ∘ .vector),
        s.setEngine x.engine (e.read x.channel instant.toDate).2) := by
  rw [step, hx]
  simp only [read, he]

/-- What a request with a plan comes down to on its engine. -/
theorem Plans.step {r : Request α} {date : α} {ts : List Task} (h : s.Plans r i e date ts) :
    ∃ p : Except (Failure α) (Answer μ α) × Engine μ α, s.step r = (p.1, s.setEngine i p.2) ∧
      s.setEngine i e = s ∧ (e.covers date = true → Engine.Tells date ts e p) ∧
      (¬ e.covers date = true → p = (.error (.fault (.outOfRange date e.low e.high)), e)) := by
  cases h with
  | query he hplan =>
    exact ⟨_, step_query he _, setEngine_same he, Engine.answer_tells hplan,
      Engine.answer_of_not_covers hplan⟩
  | held hx he =>
    refine ⟨((e.read _ _).1.map _, (e.read _ _).2), step_readHeld hx he _, setEngine_same he,
      fun hc ↦ (Engine.read_tells hc _).map _, fun hc ↦ ?_⟩
    rw [Engine.read_of_not_covers hc]
    rfl

/-- Failures come in order on every session, whatever its models and decoders do. -/
theorem failures_in_order (s : Session μ α) : s.FailsInOrder where
  detached := by
    intro k x hx he instant
    rw [step, hx]
    simp only [read, he]
  unknown := by
    intro i e name he hname
    refine ⟨?_, fun q hq ↦ ?_⟩
    · rw [step, he]
      simp only [Engine.channel_of_unknown hname]
    · rw [step_query he, Engine.answer_of_unknown hq hname, setEngine_same he]
  outside := by
    intro r i e date ts hplan hspan
    obtain ⟨p, hstep, hsame, -, hout⟩ := hplan.step
    rw [hstep, hout (mt Engine.covers_iff.1 hspan), hsame]
  within := by
    intro r i e date ts hplan hspan f s'
    obtain ⟨p, hstep, -, hin, -⟩ := hplan.step
    have htells := hin (Engine.covers_iff.2 hspan)
    rw [hstep, Prod.mk.injEq]
    constructor
    · rintro ⟨hf, rfl⟩
      obtain ⟨g, hg, hall⟩ := htells.eq_error_iff.1 (Prod.ext hf rfl)
      exact ⟨g, p.2, hg, rfl, hall⟩
    · rintro ⟨g, e', hf, rfl, hall⟩
      rw [htells.eq_error_iff.2 ⟨g, hf, hall⟩]
      exact ⟨rfl, rfl⟩
  channels := by
    intro i j e date raw m state c hs he hspan hb hd hj hpre hc
    obtain ⟨hlt, hget⟩ := List.getElem?_eq_some_iff.1 hj
    have hsplit : e.layout.channels.take j ++ c :: e.layout.channels.drop (j + 1) =
        e.layout.channels := by
      rw [← hget, ← List.drop_eq_getElem_cons, List.take_append_drop]
    obtain ⟨m', hb'⟩ := hb.again hs
    obtain ⟨e', hall⟩ := doesAll_slices (e := { e with model := m }) hs hb' hpre hc
      (e.layout.channels.drop (j + 1))
    rw [hsplit] at hall
    have hall' : DoesAll date (.decode :: e.layout.channels.map .slice) e _ e' :=
      .next (.decoded hb hd) hall
    have htells : Engine.Tells date _ e (e.answer (.propagate date)) :=
      (Engine.propagate_tells (Engine.covers_iff.2 hspan)).map Answer.state
    rw [step_query he, htells.eq_error_iff.2 ⟨_, rfl, hall'⟩]

/-- An extractor whose engine is gone, a name and a date that are none, a decoder that fails on its
own, and a channel that is longer than the vectors. -/
theorem failures_in_order_binary64 :
    ∃ (m : Source Float) (e e' : Engine (Source Float) Float) (s : Session (Source Float) Float),
      m = .linear ⟨[7, 0, 0, 0, 1, 0, 500, 2], [0, 1, 0, 0, 0, 0, -1, 3], 8,
        .mishap .readPastEnd, 0, 0⟩ ∧
      Engine.create 0 0 10 (.failing (.mishap (.foreign "KeyError" "k"))) m [] = .ok e ∧
      Engine.create 0 0 10 (.elements .cartesian) m [("a", 1), ("b", 2), ("c", 1)] = .ok e' ∧
      s = ⟨[some e, some e', none], [⟨⟨"gone", 7, 1⟩, 2⟩]⟩ ∧
      s.step (.readHeld 0 (.date (0.0 / 0.0))) =
        (.error (.fault (.detachedChannel "gone")), s) ∧
      s.step (.query 1 (.extract "d" (.date (0.0 / 0.0)))) =
        (.error (.fault (.unknownChannel "d")), s) ∧
      s.step (.query 1 (.extract "a" (.date (0.0 / 0.0)))) =
        (.error (.fault (.outOfRange (0.0 / 0.0) 0 10)), s) ∧
      (s.step (.query 0 (.propagate 4))).1 =
        .error (.fault (.undecodable 4 (.foreign "KeyError" "k"))) ∧
      (s.step (.query 1 (.propagate 4))).1 = .error (.fault (.shortRaw 4 8 "b" 8 10)) := by
  obtain ⟨m, hm⟩ : ∃ m : Source Float, m = .linear ⟨[7, 0, 0, 0, 1, 0, 500, 2],
    [0, 1, 0, 0, 0, 0, -1, 3], 8, .mishap .readPastEnd, 0, 0⟩ := ⟨_, rfl⟩
  obtain ⟨e, he⟩ : ∃ e : Engine (Source Float) Float,
    e = ⟨0, 0, 10, .failing (.mishap (.foreign "KeyError" "k")), m, {}⟩ := ⟨_, rfl⟩
  obtain ⟨e', he'⟩ : ∃ e' : Engine (Source Float) Float, e' = ⟨0, 0, 10, .elements .cartesian, m,
    ⟨[⟨"a", 7, 1⟩, ⟨"b", 8, 2⟩, ⟨"c", 10, 1⟩], 11⟩⟩ := ⟨_, rfl⟩
  obtain ⟨raw, m', hb, hlen, state, hstate⟩ : ∃ raw m', Brings (4 - 0 : Float) m (.ok raw) m' ∧
      raw.length = 8 ∧ ∃ state, Decoder.elements .cartesian 4 (.vector raw) = .ok state := by
    subst hm
    exact ⟨_, _, .moved rfl (by decide +kernel) rfl rfl, rfl, _, rfl⟩
  have hspan : (0 : Float) ≤ 4 ∧ (4 : Float) ≤ 10 := by decide +kernel
  have hnan : ¬ ((0 : Float) ≤ 0.0 / 0.0 ∧ 0.0 / 0.0 ≤ (10 : Float)) := by decide +kernel
  have hfails := failures_in_order (⟨[some e, some e', none], [⟨⟨"gone", 7, 1⟩, 2⟩]⟩ :
    Session (Source Float) Float)
  refine ⟨m, e, e', _, hm, he ▸ rfl, he' ▸ rfl, rfl, ?_, ?_, ?_, ?_, ?_⟩ <;> subst he he'
  · exact hfails.detached (x := ⟨⟨"gone", 7, 1⟩, 2⟩) rfl rfl _
  · exact (hfails.unknown (i := 1) rfl (by simp)).2 (.extract "d" _) rfl
  · exact hfails.outside (.query (i := 1) rfl rfl) hnan
  · exact congrArg Prod.fst <| (hfails.within (.query (i := 0) rfl rfl) hspan _ _).2
      ⟨_, _, rfl, rfl, .stop (.undecoded hb rfl (.cause _))⟩
  · have hfits : ∀ d ∈ [(⟨"a", 7, 1⟩ : Channel)], d.stop ≤ raw.length := by
      rw [hlen]
      decide
    have hshort : raw.length < (⟨"b", 8, 2⟩ : Channel).stop := by
      rw [hlen]
      decide
    rw [hfails.channels (i := 1) (j := 1) Source.settles rfl hspan hb hstate rfl hfits hshort, hlen]
    rfl

end Session

end OrbitReplay.Replay
