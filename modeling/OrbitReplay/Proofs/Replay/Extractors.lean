import OrbitReplay.Proofs.Replay.Channels

namespace OrbitReplay.Replay

open OrbitReplay.Dense (Model Source)

variable {μ α : Type} [Scalar α] [Model μ α]

namespace Engine

theorem exists_read_snd (e : Engine μ α) (c : Channel) (date : α) :
    ∃ m, (e.read c date).2 = { e with model := m } := by
  have hsteady : Steady fun f : Engine μ α ↦ ∃ m, f = { e with model := m } := ⟨by
    rintro - ⟨m, rfl⟩ elapsed
    exact ⟨_, rfl⟩⟩
  exact hsteady.read ⟨e.model, rfl⟩ c date

end Engine

namespace Session

variable {s t : Session μ α} {e : Engine μ α} {i k : Nat} {name : String} {c : Channel}

theorem exists_engine_step (he : s.engine? i = some e) {r : Request α} (hr : r ≠ .drop i) :
    ∃ f, (s.step r).2.engine? i = some f := by
  cases hc : s.call? i r with
  | none =>
    refine ⟨e, ?_⟩
    rw [engine?, step_other (lt_length_of_engine? he) hc hr]
    exact he
  | some call => exact ⟨_, (step_call he hc).2⟩

theorem exists_engine_run (he : s.engine? i = some e) {rs : List (Request α)}
    (hrs : .drop i ∉ rs) : ∃ f, (s.run rs).engine? i = some f := by
  induction rs generalizing s e with
  | nil => exact ⟨e, he⟩
  | cons r rs ih =>
    obtain ⟨hr, hrs⟩ := not_or.1 (mt List.mem_cons.2 hrs)
    obtain ⟨f, hf⟩ := exists_engine_step he (Ne.symm hr)
    exact ih hf hrs

theorem getElem?_held_run {x : Extractor} (hx : s.held[k]? = some x) (rs : List (Request α)) :
    (s.run rs).held[k]? = some x := by
  obtain ⟨more, hmore⟩ := held_run s rs
  rw [← hmore, List.getElem?_append_left (List.getElem?_eq_some_iff.1 hx).1, hx]

/-- A place that was emptied at some point is empty from then on. -/
theorem run_dropped {p : Option (Engine μ α)} (hp : s.engines[i]? = some p)
    {rs : List (Request α)} (hrs : .drop i ∈ rs) : (s.run rs).engines[i]? = some none := by
  induction rs generalizing s p with
  | nil => cases hrs
  | cons r rs ih =>
    rcases List.mem_cons.1 hrs with rfl | hrs
    · have hlt : i < s.engines.length := (List.getElem?_eq_some_iff.1 hp).1
      exact run_gone (s := (s.step (.drop i)).2) (List.getElem?_set_self hlt) rs
    · rcases step_place hp r with hgone | ⟨_, f, -, hf, -⟩
      · exact ih hgone hrs
      · exact ih hf hrs

theorem of_hold (h : s.step (.hold i name) = (.ok (.index k), t)) :
    ∃ e c, s.engine? i = some e ∧ t.engine? i = some e ∧ e.channel name = .ok c ∧
      t.held[k]? = some ⟨c, i⟩ := by
  rw [step] at h
  split at h
  · cases h
  · next e he =>
    split at h
    · cases h
    · next c hc =>
      cases h
      exact ⟨e, c, he, he, hc, List.getElem?_concat_length⟩

structure Attached (s : Session μ α) (k i : Nat) (c : Channel) : Prop where
  described : s.step (.describeHeld k) = (.ok (.extractor c true), s)
  current : ∃ e, s.engine? i = some e ∧ e.channel c.name = .ok c ∧
    ∀ instant, ∃ m, (s.step (.readHeld k instant)).2 = s.setEngine i { e with model := m }
  answers (instant : Instant α) :
    s.step (.readHeld k instant) = s.step (.query i (.extract c.name instant))
  apart (instant : Instant α) {j : Nat} :
    j ≠ i → (s.step (.readHeld k instant)).2.engines[j]? = s.engines[j]?

structure Detached (s : Session μ α) (k i : Nat) (c : Channel) : Prop where
  gone : s.engine? i = none
  described : s.step (.describeHeld k) = (.ok (.extractor c false), s)
  refused (instant : Instant α) :
    s.step (.readHeld k instant) = (.error (.fault (.detachedChannel c.name)), s)

theorem attached_of_channel (hx : s.held[k]? = some ⟨c, i⟩) (he : s.engine? i = some e)
    (hc : e.channel c.name = .ok c) : s.Attached k i c := by
  have hattached : s.isAttached ⟨c, i⟩ = true := Option.isSome_of_eq_some he
  have hread (instant : Instant α) : s.step (.readHeld k instant) =
      ((e.read c instant.toDate).1.map (.values ∘ .vector),
        s.setEngine i (e.read c instant.toDate).2) := by
    simp only [step, hx, read, he]
  refine ⟨?_, ⟨e, he, hc, fun instant ↦ ?_⟩, fun instant ↦ ?_, fun instant j hj ↦ ?_⟩
  · simp only [step, hx, hattached]
  · obtain ⟨m, hm⟩ := e.exists_read_snd c instant.toDate
    exact ⟨m, by rw [hread, hm]⟩
  · rw [hread, step, he]
    simp only [Engine.answer, Engine.readNamed, hc]
  · rw [hread]
    exact getElem?_setEngine_ne (Ne.symm hj) _

theorem detached_of_gone (hx : s.held[k]? = some ⟨c, i⟩) (he : s.engine? i = none) :
    s.Detached k i c := by
  have hdetached : s.isAttached ⟨c, i⟩ = false := by rw [isAttached, he]; rfl
  refine ⟨he, ?_, fun instant ↦ ?_⟩
  · simp only [step, hx, hdetached]
  · simp only [step, hx, read, he]

theorem attached_run (he : s.engine? i = some e) (hc : c ∈ e.layout.channels)
    (hx : s.held[k]? = some ⟨c, i⟩) (hs : Each (fun e ↦ e.layout.Tiled) s)
    {rs : List (Request α)} (hrs : .drop i ∉ rs) : (s.run rs).Attached k i c := by
  obtain ⟨f, hf⟩ := exists_engine_run he hrs
  have hchannels : e.layout.channels <+: f.layout.channels :=
    run_rel (R := fun e f ↦ e.layout.channels <+: f.layout.channels)
      (fun e ↦ List.prefix_refl e.layout.channels) List.IsPrefix.trans Engine.channels_reply he hf
  have htiled : f.layout.Tiled := (hs.run (.ofInvariant Engine.invariant_tiled) rs).engine hf
  exact attached_of_channel (getElem?_held_run hx rs) hf
    ((Engine.partitioned htiled).found (hchannels.subset hc))

theorem detached_run (he : s.engine? i = some e) (hx : s.held[k]? = some ⟨c, i⟩)
    {rs : List (Request α)} (hrs : .drop i ∈ rs) : (s.run rs).Detached k i c := by
  refine detached_of_gone (getElem?_held_run hx rs) ?_
  rw [engine?, run_dropped (Option.join_eq_some_iff.1 he) hrs, Option.join_some]

/-- Whatever happens after an extractor was handed out, it stays that of its channel and its engine:
it reads as the engine does by name, touches no other engine, and is detached exactly if its engine
was dropped. -/
theorem extractors_stay_bound {start low high : α} {decoder : Decoder α} {model : μ}
    {channels : List (String × Int)} {e₀ : Engine μ α}
    (h : Engine.create start low high decoder model channels = .ok e₀) {rs₀ : List (Request α)}
    (hhold : ((ofEngine e₀).run rs₀).step (.hold i name) = (.ok (.index k), t)) :
    ∃ e c, ((ofEngine e₀).run rs₀).engine? i = some e ∧ e.channel name = .ok c ∧ c.name = name ∧
      ∀ rs, (t.run rs).held[k]? = some ⟨c, i⟩ ∧ (.drop i ∉ rs → (t.run rs).Attached k i c) ∧
        (.drop i ∈ rs → (t.run rs).Detached k i c) := by
  obtain ⟨e, c, he, he', hc, hx⟩ := of_hold hhold
  have htiled : Each (fun e ↦ e.layout.Tiled) t := by
    have hkept : Kept fun e : Engine μ α ↦ e.layout.Tiled := .ofInvariant Engine.invariant_tiled
    have hstep := ((each_ofEngine (Engine.tiled_of_create h)).run hkept rs₀).step hkept
      (.hold i name)
    rwa [hhold] at hstep
  exact ⟨e, c, he, hc, Engine.name_of_channel hc, fun rs ↦
    ⟨getElem?_held_run hx rs,
      attached_run he' (Engine.mem_of_channel hc) hx htiled, detached_run he' hx⟩⟩

/-- The engine was cloned and moved on before it was dropped; the clone still has the channel. -/
theorem extractors_stay_bound_binary64 :
    ∃ (m : Source Float) (e₀ : Engine (Source Float) Float) (t : Session (Source Float) Float),
      m = .linear ⟨[7, 0, 0, 0, 1, 0, 500, 2], [0, 1, 0, 0, 0, 0, -1, 3], 8,
        .mishap .readPastEnd, 0, 0⟩ ∧
      Engine.create 0 0 10 (.elements .cartesian) m [("a", 1)] = .ok e₀ ∧
      ((ofEngine e₀).run [.query 0 (.stateAt 4), .clone 0]).step (.hold 0 "a") =
        (.ok (.index 0), t) ∧
      (t.run [.query 0 (.register "b" 1), .query 1 (.stateAt 6)]).Attached 0 0 ⟨"a", 7, 1⟩ ∧
      (t.run [.query 1 (.stateAt 6), .drop 0, .clone 1]).Detached 0 0 ⟨"a", 7, 1⟩ := by
  obtain ⟨m, hm⟩ : ∃ m : Source Float, m = .linear ⟨[7, 0, 0, 0, 1, 0, 500, 2],
    [0, 1, 0, 0, 0, 0, -1, 3], 8, .mishap .readPastEnd, 0, 0⟩ := ⟨_, rfl⟩
  have hstay {t} := @extractors_stay_bound _ _ _ _ t 0 0 "a" 0 0 10 (.elements .cartesian) m
    [("a", 1)] _ rfl [.query 0 (.stateAt 4), .clone 0]
  subst hm
  obtain ⟨e, c, he, hc, -, hrun⟩ := hstay rfl
  cases he
  cases hc
  exact ⟨_, _, _, rfl, rfl, rfl, (hrun _).2.1 (by simp), (hrun _).2.2 (by simp)⟩

end Session

end OrbitReplay.Replay
