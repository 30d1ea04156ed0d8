import Agend.Engine.Change

/-! What every change keeps: nobody is booked twice, bindings agree with assignees, stored
pipelines are reachable, and what was sent under the current ticket is what would be sent again. -/
namespace Agend.Engine

open Agend.Library Agend.Pipeline Agend.Runtime

variable {w w' : World} {r r' : TaskRow} {v : ValidatedWorkflow} {st st' st0 : PipelineState}
  {i t : String} {b : BindingRow} {m : NewMessage} {review : Bool}

structure Booked (w : World) : Prop where
  holder : ∀ t t' r r' i, w.row t = some r → w.row t' = some r' → r.isOpen = true →
    r'.isOpen = true → r.task.assignee = some i → r'.task.assignee = some i → t = t'
  fits : ∀ i b, w.bindings.get i = some b → Fits w b
  task : ∀ i b, w.bindings.get i = some b → (w.row b.task).isSome = true
  worktree : ∀ i j b c, w.bindings.get i = some b → w.bindings.get j = some c →
    b.worktree = c.worktree → i = j

/-- What the receiver of a dispatch under the current ticket was told still holds. -/
inductive Told (w : World) (r : TaskRow) (st st0 : PipelineState) (i : String) : Bool → Prop
  | work (h : r.isOpen = true → Alike st0 st ∧ r.task.assignee = some i ∧
      (st.pendingWorkReason = none → ∃ role text output agent,
        AtStage st (.work role text output) ∧ w.agents.get i = some agent ∧ agent.role = role)) :
      Told w r st st0 i false
  | review (h : Same st0 st) : Told w r st st0 i true

/-- A stored message is the dispatch of an attempt of its task. -/
structure SentFor (w : World) (m : NewMessage) (r : TaskRow) (v : ValidatedWorkflow)
    (st st0 : PipelineState) (review : Bool) (i : String) : Prop where
  standing : Standing w r v st
  task : st0.taskId = r.id
  workflow : st0.workflow = v.workflow
  composed : ∃ team, w.teams.get r.task.teamId = some team ∧
    m = dispatchOf w.home team.repo r.task st0 review i
  stage : if review then ∃ role count bound, AtStage st0 (.approval (.role role) count bound)
    else ∃ role text output, AtStage st0 (.work role text output)
  known : (w.agents.get i).isSome = true
  used : st0.attempt ≤ st.attempts.getD st0.stageIndex 0
  current : st.status = .running →
    (st.stageIndex, st.attempt) = (st0.stageIndex, st0.attempt) → Told w r st st0 i review

def Sent (w : World) (m : NewMessage) : Prop :=
  ∃ r v st st0 review i, SentFor w m r v st st0 review i

structure Orderly (w : World) : Prop where
  booked : Booked w
  standing : ∀ t r, w.row t = some r → ∃ v st, Standing w r v st
  named : ∀ t r, w.row t = some r → Plain t
  agents : ∀ i a, w.agents.get i = some a → Plain i
  suited : ∀ i b, w.bindings.get i = some b → b.kind = .review → Suited w b
  sent : ∀ id m, w.messages.get id = some m → Sent w m

/-- What grows, and never goes back. -/
structure Grown (w w' : World) : Prop where
  home : w'.home = w.home
  workflow : ∀ k wf, w.workflows.get k = some wf → w'.workflows.get k = some wf
  team : ∀ k a, w.teams.get k = some a → ∃ a', w'.teams.get k = some a' ∧ a'.repo = a.repo
  agent : ∀ i a, w.agents.get i = some a → ∃ a', w'.agents.get i = some a' ∧ (a' = a ∨ Free w i)
  row : ∀ t r, w.row t = some r → ∃ r', w'.row t = some r' ∧ Ages r r'

theorem Grown.refl (w : World) : Grown w w :=
  ⟨rfl, fun _ _ h => h, fun _ a h => ⟨a, h, rfl⟩, fun _ a h => ⟨a, h, Or.inl rfl⟩,
    fun _ r h => ⟨r, h, .refl r⟩⟩

namespace Change

theorem grown (h : Change w w') : Grown w w' := by
  cases h with
  | @wrote r r' hr h =>
    refine { Grown.refl w with row := fun t r1 hr1 => ?_ }
    rw [World.row_putRow]
    split_ifs with ht
    · have hid : r'.id = r.id := h.ages.id
      rw [ht, hid, hr] at hr1
      obtain rfl := Option.some.inj hr1
      exact ⟨r', rfl, h.ages⟩
    · exact ⟨r1, hr1, .refl r1⟩
  | created r hn =>
    refine { Grown.refl w with row := fun t r1 hr1 => ?_ }
    rw [World.row_putRow]
    split_ifs with ht
    · rw [ht, hn] at hr1
      cases hr1
    · exact ⟨r1, hr1, .refl r1⟩
  | joined agent ha hf =>
    refine { Grown.refl w with agent := fun i a hi => ?_ }
    rw [Table.get_put]
    split_ifs with hk
    · subst hk
      exact ⟨agent, rfl, Or.inr hf⟩
    · exact ⟨a, hi, Or.inl rfl⟩
  | hired agent ha =>
    refine { Grown.refl w with agent := fun i a hi => ?_ }
    rw [Table.get_put]
    split_ifs with hk
    · rw [hk, ha] at hi
      cases hi
    · exact ⟨a, hi, Or.inl rfl⟩
  | saved workflow hn =>
    refine { Grown.refl w with workflow := fun k wf hk => ?_ }
    rw [Table.get_put]
    split_ifs with he
    · rw [he, hn] at hk
      cases hk
    · exact hk
  | founded team hn =>
    refine { Grown.refl w with team := fun k a hk => ?_ }
    rw [Table.get_put]
    split_ifs with he
    · rw [he, hn] at hk
      cases hk
    · exact ⟨a, hk, rfl⟩
  | steered team ht hr =>
    refine { Grown.refl w with team := fun k a hk => ?_ }
    rw [Table.get_put]
    split_ifs with he
    · rw [he, ht] at hk
      obtain rfl := Option.some.inj hk
      exact ⟨team, rfl, hr⟩
    · exact ⟨a, hk, rfl⟩
  | _ => exact { Grown.refl w with }

/-- Whoever holds an open task held it before, or was free. -/
theorem holder (h : Change w w') (hr : w'.row t = some r') (ho : r'.isOpen = true)
    (ha : r'.task.assignee = some i) :
    (∃ r, w.row t = some r ∧ r.isOpen = true ∧ r.task.assignee = some i) ∨
      Free w i ∧ w' = w.putRow r' := by
  rcases h.row hr with hold | ⟨r, hr0, hre, hw⟩ | ⟨-, -, hn, -⟩
  · exact Or.inl ⟨r', hold, ho, ha⟩
  · rcases hre.holder ho ha with ⟨h1, h2⟩ | hf
    · exact Or.inl ⟨r, hr0, h1, h2⟩
    · exact Or.inr ⟨hf, hw⟩
  · rw [hn] at ha
    cases ha

end Change

/-- A binding fits every later world in which the assignees changed as a change changes them. -/
theorem Fits.change (h : Change w w') (hb : w.bindings.get b.instanceId = some b)
    (hrow : (w.row b.task).isSome = true) (hf : Fits w b) : Fits w' b := by
  have bound : ∀ {i}, Free w i → i ≠ b.instanceId := by
    rintro i hfree rfl
    rw [hfree.binding] at hb
    cases hb
  refine ⟨fun t r' hr ho ha => ?_, fun hk r' hr ho => ?_, fun hk r' hr ha => ?_⟩
  · rcases h.holder hr ho ha with ⟨r, hr0, h1, h2⟩ | ⟨hfree, -⟩
    · exact hf.holder t r hr0 h1 h2
    · exact absurd rfl (bound hfree)
  · rcases h.row hr with hold | ⟨r, hr0, hre, -⟩ | ⟨hn, -⟩
    · exact hf.work hk r' hold ho
    · have hopen : r.isOpen = true := by
        by_contra hc
        have hclosed := hre.ages.closed (by simpa using hc)
        rw [ho] at hclosed
        cases hclosed
      have ha := hf.work hk r hr0 hopen
      cases hre with
      | noted ht | closed ht | blocked _ _ ht | stepped _ _ _ ht => rw [ht]; exact ha
      | freed hc => rw [hc] at hopen; cases hopen
      | assigned hn => rw [hn] at ha; cases ha
      | handedOff hno => exact absurd hk (hno _ b hb (World.id_of_row hr0).symm)
    · rw [hn] at hrow
      cases hrow
  · rcases h.row hr with hold | ⟨r, hr0, hre, -⟩ | ⟨hn, -⟩
    · exact hf.review hk r' hold ha
    · have hne := hf.review hk r hr0
      exact absurd rfl (bound (hre.newHolder ha hne))
    · rw [hn] at hrow
      cases hrow

theorem Booked.change (hb : Booked w) (h : Change w w') : Booked w' := by
  refine ⟨fun t t' r r' i hr hr' ho ho' ha ha' => ?_, fun i b hi => ?_, fun i b hi => ?_,
    fun i j b c hi hj he => ?_⟩
  · by_contra hne
    rcases h.holder hr ho ha with ⟨r1, hr1, ho1, ha1⟩ | ⟨hf, hw⟩
    · rcases h.holder hr' ho' ha' with ⟨r2, hr2, ho2, ha2⟩ | ⟨hf, hw⟩
      · exact hne (hb.holder t t' r1 r2 i hr1 hr2 ho1 ho2 ha1 ha2)
      · exact hf.task t r1 hr1 ho1 ha1
    · have hid := World.id_of_row hr
      rw [hw, World.row_putRow_of_ne (by rw [hid]; exact Ne.symm hne)] at hr'
      exact hf.task t' r' hr' ho' ha'
  · have hid : b.instanceId = i := (Table.get_eq_some.mp hi).2
    subst hid
    rcases h.binding hi with hold | ⟨old, hold, ht, hk, -, -, rfl⟩ | ⟨-, -, -, hf, -, rfl⟩
    · exact (hb.fits _ b hold).change h hold (hb.task _ b hold)
    · have hf := hb.fits _ old hold
      have hio : old.instanceId = b.instanceId := (Table.get_eq_some.mp hold).2
      refine ⟨fun t r hr ho ha => ?_, fun hkind r hr ho => ?_, fun hkind r hr => ?_⟩
      · rw [ht]
        exact hf.holder t r hr ho (by rw [hio]; exact ha)
      · have := hf.work (hk ▸ hkind) r (by rw [← ht]; exact hr) ho
        rwa [hio] at this
      · have := hf.review (hk ▸ hkind) r (by rw [← ht]; exact hr)
        rwa [hio] at this
    · exact ⟨hf.holder, hf.work, hf.review⟩
  · have grown : ∀ {t}, (w.row t).isSome = true → (w'.row t).isSome = true := by
      intro t hs
      obtain ⟨r, hr⟩ := Option.isSome_iff_exists.mp hs
      obtain ⟨r', hr', -⟩ := h.grown.row t r hr
      rw [hr']
      rfl
    rcases h.binding hi with hold | ⟨old, hold, ht, -⟩ | ⟨-, hr, -⟩
    · exact grown (hb.task i b hold)
    · rw [ht]
      exact grown (hb.task i old hold)
    · exact grown hr
  · rcases h.binding hi with hold | ⟨old, hold, -, -, hwt, -, rfl⟩ | ⟨hn, -, hw, -, -, rfl⟩
    · rcases h.binding hj with hold' | ⟨old', hold', -, -, hwt', -⟩ | ⟨hn', -, hw', -, -⟩
      · exact hb.worktree i j b c hold hold' he
      · exact hb.worktree i j b old' hold hold' (by rw [he, hwt'])
      · exact absurd he (hw' i b hold)
    · have hbi : b.instanceId = i := (Table.get_eq_some.mp hi).2
      simp only [Table.get_put] at hj
      split_ifs at hj with hk
      · rw [hk, hbi]
      · exact hb.worktree i j old c hold hj (by rw [← he, hwt])
    · have hbi : b.instanceId = i := (Table.get_eq_some.mp hi).2
      simp only [Table.get_put] at hj
      split_ifs at hj with hk
      · rw [hk, hbi]
      · exact absurd he.symm (hw j c hj)

/-- A row that keeps its pipeline stands where it stood. -/
theorem Standing.later (hs : Standing w r v st) (hg : Grown w w') (hr : w'.row r.id = some r')
    (hp : r'.pipeline = r.pipeline) : Standing w' r' v st := by
  have hid : r'.id = r.id := World.id_of_row hr
  obtain ⟨r1, hr1, hages⟩ := hg.row _ _ hs.row
  obtain rfl := Option.some.inj (hr.symm.trans hr1)
  exact ⟨by rw [hid]; exact hr, by rw [hages.workflow]; exact hg.workflow _ _ hs.workflow,
    hp.trans hs.stored, hid ▸ hs.invariant⟩

/-- Only a step changes the stored pipeline. -/
theorem Rewrite.pipeline (h : Rewrite w r r') : r'.pipeline = r.pipeline ∨
    ∃ v st next e actions, r.isOpen = true ∧ Standing w r v st ∧ step st e = .ok (next, actions) ∧
      r'.pipeline = some next.snapshot ∧ r'.task.assignee = r.task.assignee := by
  cases h with
  | noted _ hp | closed _ hp | freed _ _ hp | blocked _ _ _ hp | assigned _ _ _ hp
  | handedOff _ _ _ hp => exact Or.inl hp
  | stepped ho hs he ht hp => exact Or.inr ⟨_, _, _, _, _, ho, hs, he, hp, by rw [ht]⟩

theorem Standing.change (h : Change w w') (ho : ∀ t r, w.row t = some r → ∃ v st, Standing w r v st)
    (hr : w'.row t = some r') : ∃ v st, Standing w' r' v st := by
  have hid := World.id_of_row hr
  rcases h.row hr with hold | ⟨r, hr0, hre, hw⟩ | ⟨hn, hw, -, -, v, hwf, hp⟩
  · obtain ⟨v, st, hs⟩ := ho t r' hold
    exact ⟨v, st, hs.later h.grown (by rw [hid]; exact hr) rfl⟩
  · obtain ⟨v, st, hs⟩ := ho t r hr0
    have hid0 := World.id_of_row hr0
    rcases hre.pipeline with hp | ⟨v', st', next, e, actions, -, hs', he, hp, -⟩
    · exact ⟨v, st, hs.later h.grown (by rw [hid0]; exact hr) hp⟩
    · have hwf := hre.ages.workflow
      refine ⟨v', next, by rw [hid]; exact hr, ?_, hp, ?_⟩
      · rw [hwf]
        exact h.grown.workflow _ _ hs'.workflow
      · have hinv := hs'.invariant.step he
        rwa [show r'.id = r.id from hid.trans hid0.symm]
  · refine ⟨v, .new t v, by rw [hid]; exact hr, h.grown.workflow _ _ hwf, hp, ?_⟩
    rw [hid]
    exact Invariant.new t v

theorem Suited.change (h : Change w w') (hb : w.bindings.get b.instanceId = some b)
    (hs : Suited w b) : Suited w' b := by
  obtain ⟨r, wf, s, role, count, bound, agent, n, hr, hwf, hmem, hst, htk, ha, hrole, hteam⟩ := hs
  obtain ⟨r', hr', hages⟩ := h.grown.row _ _ hr
  obtain ⟨agent', ha', rfl | hf⟩ := h.grown.agent _ _ ha
  · exact ⟨r', wf, s, role, count, bound, agent', n, hr', hages.workflow ▸ h.grown.workflow _ _ hwf,
      hmem, hst, htk, ha', hrole, hages.team ▸ hteam⟩
  · rw [hf.binding] at hb
    cases hb

theorem Change.message (h : Change w w') {id : String} (hm : w'.messages.get id = some m) :
    w.messages.get id = some m ∨ ∃ r v st review i, Dispatched w m r v st review i ∧
      w' = { w with messages := w.messages.put m } := by
  cases h with
  | claimed m' hn h =>
    simp only [Table.get_put] at hm
    split_ifs at hm with hk
    · obtain rfl := Option.some.inj hm
      exact Or.inr ⟨_, _, _, _, _, h, rfl⟩
    · exact Or.inl hm
  | _ => exact Or.inl hm

theorem stage_of_atStage {stage : Stage} (h : AtStage st stage) :
    ∃ s, st.workflow.stages[st.stageIndex]? = some s ∧ s.stage = stage := by
  obtain ⟨s, hs, rfl⟩ := Option.map_eq_some_iff.mp h
  exact ⟨s, hs, rfl⟩

theorem Alike.atStage {stage : Stage} (h : Alike st0 st) (ha : AtStage st0 stage) :
    AtStage st stage := by
  rw [AtStage, ← h.currentStage]
  exact ha

/-- Nobody who holds an open task changes. -/
theorem Told.agents (h : Told w r st st0 i review) (hg : Grown w w')
    (hf : r.isOpen = true → r.task.assignee = some i → ¬ Free w i) :
    Told w' r st st0 i review := by
  cases h with
  | review h => exact .review h
  | work h =>
    refine .work fun ho => ?_
    obtain ⟨h1, h2, h3⟩ := h ho
    refine ⟨h1, h2, fun hn => ?_⟩
    obtain ⟨role, text, output, agent, hs, ha, hr⟩ := h3 hn
    obtain ⟨agent', ha', rfl | hfree⟩ := hg.agent _ _ ha
    · exact ⟨role, text, output, agent', hs, ha', hr⟩
    · exact absurd hfree (hf ho h2)

/-- A rewrite that keeps the pipeline takes no open work away from whoever was told of it. -/
theorem Told.rewrite (h : Told w r st st0 i review) (hs : Standing w r v st)
    (hre : Rewrite w r r') : Told w r' st st0 i review := by
  cases h with
  | review h => exact .review h
  | work h =>
    refine .work fun ho => ?_
    have hopen : r.isOpen = true := by
      by_contra hc
      have hclosed := hre.ages.closed (by simpa using hc)
      rw [ho] at hclosed
      cases hclosed
    obtain ⟨h1, h2, h3⟩ := h hopen
    cases hre with
    | noted ht | closed ht | blocked _ _ ht | stepped _ _ _ ht => exact ⟨h1, by rw [ht]; exact h2, h3⟩
    | freed hc => rw [hc] at hopen; cases hopen
    | assigned hn => rw [hn] at h2; cases h2
    | handedOff _ hl =>
      obtain ⟨v', st', role, text, output, holder, agent, hs', hat, hn, hh, ha, hne⟩ := hl hopen
      obtain ⟨-, rfl⟩ := hs.unique hs'
      obtain ⟨role', text', output', agent', hat', ha', hr'⟩ := h3 hn
      obtain rfl := Option.some.inj (h2.symm.trans hh)
      obtain rfl := Option.some.inj (ha.symm.trans ha')
      obtain ⟨rfl, -, -⟩ := Stage.work.inj (Option.some.inj (hat.symm.trans hat'))
      exact absurd hr' hne

/-- A step leaves the current ticket, or keeps what was told under it. -/
theorem SentFor.step {next : PipelineState} {e : PipelineEvent} {actions : List PipelineAction}
    (h : SentFor w m r v st st0 review i) (hr : r'.isOpen = true → r.isOpen = true)
    (ha : r'.task.assignee = r.task.assignee)
    (he : step st e = .ok (next, actions)) (hrun : next.status = .running)
    (hc : (next.stageIndex, next.attempt) = (st0.stageIndex, st0.attempt)) :
    Told w r' next st0 i review := by
  have hinv := h.standing.invariant
  have hcur := current_of_step hinv he hrun h.used hc
  obtain ⟨hst, halike, hsame⟩ := alike_of_step hinv he ((hinv.step he).inv.live_of_running hrun)
    (hc.trans hcur.symm)
  have hidx : st.stageIndex = st0.stageIndex := (Prod.mk.inj hcur).1
  cases h.current hst hcur with
  | review h0 =>
    refine .review (h0.trans (hsame ?_))
    obtain ⟨role, count, bound, hat⟩ := h.stage
    obtain ⟨s, hs, hk⟩ := stage_of_atStage (h0.toAlike.atStage hat)
    exact ⟨s, hs, WorkflowStage.isKind_approval_iff.mpr ⟨_, _, _, hk⟩⟩
  | work h0 =>
    refine .work fun ho => ?_
    obtain ⟨h1, h2, h3⟩ := h0 (hr ho)
    refine ⟨h1.trans halike, ha.trans h2, fun hn => ?_⟩
    obtain ⟨role, text, output, agent, hat, hag, hrole⟩ := h3 (halike.reason.trans hn)
    exact ⟨role, text, output, agent, halike.atStage hat, hag, hrole⟩

theorem SentFor.change (h : Change w w') (hs : SentFor w m r v st st0 review i) : Sent w' m := by
  obtain ⟨r', hr', hages⟩ := h.grown.row _ _ hs.standing.row
  have hid : r'.id = r.id := World.id_of_row hr'
  have hcomp : ∃ team, w'.teams.get r'.task.teamId = some team ∧
      m = dispatchOf w'.home team.repo r'.task st0 review i := by
    obtain ⟨team, hteam, rfl⟩ := hs.composed
    obtain ⟨team', hteam', hrepo⟩ := h.grown.team _ _ hteam
    refine ⟨team', by rw [hages.team]; exact hteam', ?_⟩
    rw [h.grown.home, hrepo]
    exact dispatchOf_congr hages.id.symm hages.title.symm _ _ _ _ _
  have hknown : (w'.agents.get i).isSome = true := by
    obtain ⟨agent, ha⟩ := Option.isSome_iff_exists.mp hs.known
    obtain ⟨agent', ha', -⟩ := h.grown.agent _ _ ha
    rw [ha']
    rfl
  rcases h.row hr' with hold | ⟨r0, hr0, hre, hw⟩ | ⟨hn, -⟩
  · obtain rfl := Option.some.inj (hs.standing.row.symm.trans hold)
    refine ⟨r, v, st, st0, review, i, hs.standing.later h.grown hr' rfl, hs.task, hs.workflow, hcomp,
      hs.stage, hknown, hs.used, fun hrun hc => (hs.current hrun hc).agents h.grown ?_⟩
    exact fun ho ha hf => hf.task _ _ hs.standing.row ho ha
  · obtain rfl := Option.some.inj (hs.standing.row.symm.trans hr0)
    have agents : ∀ {st1 : PipelineState}, Told w r' st1 st0 i review →
        Told w' r' st1 st0 i review := by
      intro st1 ht
      cases ht with
      | review h1 => exact .review h1
      | work h1 => rw [hw]; exact .work h1
    rcases hre.pipeline with hp | ⟨v', st', next, e, actions, ho, hs', he, hp, ha⟩
    · exact ⟨r', v, st, st0, review, i, hs.standing.later h.grown hr' hp, hs.task.trans hid.symm,
        hs.workflow, hcomp, hs.stage, hknown, hs.used,
        fun hrun hc => agents ((hs.current hrun hc).rewrite hs.standing hre)⟩
    · obtain ⟨hv, rfl⟩ := hs.standing.unique hs'
      have hinv := hs.standing.invariant
      have hlater := ((step_eq_ok_iff.mp he).effect hinv.sound hinv.inv).later hinv.sound hinv.inv
      have hnext := hinv.step he
      refine ⟨r', v, next, st0, review, i, ⟨by rw [hid]; exact hr', ?_, hp, hid ▸ hnext⟩,
        hs.task.trans hid.symm, hs.workflow, hcomp, hs.stage, hknown,
        hs.used.trans (hlater.grows _), fun hrun hc =>
          agents (hs.step (fun _ => ho) ha he hrun hc)⟩
      rw [hages.workflow]
      exact h.grown.workflow _ _ hs.standing.workflow
  · rw [hs.standing.row] at hn
    cases hn

/-- A dispatch is sent for the attempt it names. -/
theorem Dispatched.sentFor (h : Dispatched w m r v st review i) :
    SentFor w m r v st st review i := by
  refine ⟨h.standing, h.standing.invariant.task, h.standing.invariant.workflow, h.composed, ?_, ?_,
    le_rfl, fun _ _ => ?_⟩
  · cases h.entrusted with
    | work hs => exact ⟨_, _, _, hs⟩
    | review hs => exact ⟨_, _, _, hs⟩
  · cases h.entrusted with
    | work _ ha => rw [ha]; rfl
    | review _ ha => rw [ha]; rfl
  · cases h.entrusted with
    | work hs ha hr hh =>
      exact .work fun ho => ⟨.refl st, hh ho, fun hn => ⟨_, _, _, _, hs, ha, hr ho hn⟩⟩
    | review => exact .review (.refl st)

theorem Orderly.change (h : Change w w') (ho : Orderly w) : Orderly w' := by
  refine ⟨ho.booked.change h, fun t r hr => Standing.change h ho.standing hr, fun t r hr => ?_,
    fun i a hi => ?_, fun i b hi hk => ?_, fun id m hm => ?_⟩
  · rcases h.row hr with hold | ⟨r0, hr0, -⟩ | ⟨-, -, -, hp, -⟩
    · exact ho.named t r hold
    · exact ho.named t r0 hr0
    · exact hp
  · cases h with
    | joined agent ha =>
      simp only [Table.get_put] at hi
      split_ifs at hi with hk
      · rw [hk]
        exact ho.agents _ _ ha
      · exact ho.agents i a hi
    | hired agent _ hid =>
      simp only [Table.get_put] at hi
      split_ifs at hi with hk
      · rw [hk]
        exact hid
      · exact ho.agents i a hi
    | _ => exact ho.agents i a hi
  · have hid : b.instanceId = i := (Table.get_eq_some.mp hi).2
    subst hid
    rcases h.binding hi with hold | ⟨old, hold, ht, hkk, -, hs, rfl⟩ | ⟨-, -, -, -, hs, rfl⟩
    · exact (ho.suited _ b hold hk).change h hold
    · exact hs hk
    · exact hs hk
  · rcases h.message hm with hold | ⟨r, v, st, review, i, hd, hw⟩
    · obtain ⟨r, v, st, st0, review, i, hs⟩ := ho.sent id m hold
      exact hs.change h
    · exact hd.sentFor.change h

end Agend.Engine
