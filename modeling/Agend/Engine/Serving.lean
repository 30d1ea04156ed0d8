import Agend.Engine.Stepping

/-! The requests: each keeps the contract, and leaves no obsolete binding behind. -/
namespace Agend.Engine

open Agend.Library Agend.Pipeline Agend.Runtime Program

variable {k : Terms} {R : World → World → Prop} [IsPreorder World R] {w w' : World} {r : TaskRow}
  {v : ValidatedWorkflow} {id t : String} {l : Loaded} {e : PipelineEvent}

/-- A contract without bounds. -/
def anywhere : World → World → Prop := fun _ _ => True

instance : IsPreorder World anywhere := inferInstanceAs (IsPreorder World fun _ _ => True)

theorem Only.anywhere (_ : Only t w w') : anywhere w w' := trivial

theorem holds_repoWaits : Holds (k.contract.within R) (repoWaits t) (fun _ s => s = w) w := by
  refine holds_readThen (c := .settings) rfl (fun (me : Settings) _ => ?_) fun _ _ => rfl
  split
  · exact Holds.pure rfl
  · refine holds_team.bind (fun x s _ hx => ?_) fun _ _ _ hs => hs
    exact Holds.pure hx.1

/-- A state to commit an event to. -/
def Ready (k : Terms) (id : String) (l : Loaded) (w : World) : Prop :=
  Calm k w ∧ ∃ r v, Loads w id l r v ∧
    (r.isOpen = true ∨ r.task.status = statusOf l.state.status)

theorem Ready.commit (h : Ready k id l w) : Holds (k.contract.within (Only id))
    (commitTransition l e) (After (fun _ s => Calm k s ∧ Follows s id) fun _ s => Calm k s) w := by
  obtain ⟨hc, r, v, hl, ho⟩ := h
  exact holds_commitTransition hl hc ho

theorem Ready.taskId (h : Ready k id l w) : l.state.taskId = id := by
  obtain ⟨-, r, v, hl, -⟩ := h
  exact hl.standing.invariant.task.trans (World.id_of_row hl.row)

/-- The branch is looked at before the event. -/
theorem holds_observe (h : Ready k id l w) : Holds (k.contract.within (Only id)) (observe l e)
    (After (fun l' s => Ready k id l' s) fun _ s => Calm k s) w := by
  refine holds_readThen (c := .settings) rfl (fun (me : Settings) _ => ?_) fun _ _ => h.1
  split
  · exact Holds.pure h
  · rename_i branch _
    refine holds_team.bind (fun x s _ hx => ?_) fun _ _ _ hs => hs ▸ h.1
    obtain ⟨rfl, -⟩ := hx
    split
    · exact Holds.pure h
    · rename_i repo _
      refine holds_readThen (c := .revParse _ _) rfl (fun (head : String) _ => ?_) fun _ _ => h.1
      split
      · exact Holds.pure h
      · refine holds_readThen (c := .patchId _ _) rfl (fun (patch : String) _ => ?_) fun _ _ => h.1
        refine h.commit.bind (fun _ s' _ hs => ?_) fun _ _ _ hs => hs
        obtain ⟨hc, hf⟩ := hs
        rw [h.taskId]
        refine holds_load.mono fun res s'' _ hres => ?_
        cases res with
        | error =>
          obtain ⟨rfl, -⟩ := hres
          exact hc
        | ok l' =>
          obtain ⟨rfl, -, r', v', hl'⟩ := hres
          exact ⟨hc, r', v', hl', hf r' v' l'.state hl'.standing (World.id_of_row hl'.row)⟩

theorem holds_event (hc : Calm k w) :
    Holds (k.contract.within (Only id)) (event id e) (fun _ s => Calm k s) w := by
  refine holds_load.bind (fun l s _ hx => ?_) fun _ s _ hs => hs.1 ▸ hc
  obtain ⟨rfl, -, r, v, hl⟩ := hx
  refine Holds.checkThen (fun _ => ?_) fun _ => hc
  refine Holds.checkThen (fun hopen => ?_) fun _ => hc
  refine holds_repoWaits.bind (fun waits s' _ hs => ?_) fun _ _ _ hs => hs ▸ hc
  obtain rfl : s' = s := hs
  refine Holds.checkThen (fun _ => ?_) fun _ => hc
  have hready : Ready k id l s' := ⟨hc, r, v, hl, Or.inl (by rw [TaskRow.isOpen, hl.task]; exact hopen)⟩
  refine (holds_observe hready).bind (fun l' s'' _ hl' => ?_) fun _ _ _ hs => hs
  refine hl'.commit.mono fun res _ _ hres => ?_
  cases res with
  | ok => exact hres.1
  | error => exact hres

/-! Results. -/

theorem holds_knownInstance : Holds (k.contract.within R) (knownInstance t) (fun _ s => s = w) w :=
  holds_readThen (c := .instance_ _) rfl (fun _ _ => Holds.check (fun _ => rfl) fun _ => rfl)
    fun _ _ => rfl

theorem holds_owned {caller : String} : Holds (k.contract.within R) (owned caller id)
    (After (fun l s => s = w ∧ ∃ r v, Loads w id l r v) fun _ s => s = w) w := by
  refine holds_load.bind (fun l s _ hx => ?_) fun _ _ _ hs => hs.1
  obtain ⟨rfl, -, hl⟩ := hx
  exact Holds.checkThen (fun _ => Holds.pure ⟨rfl, hl⟩) fun _ => rfl

theorem holds_ownedResult {caller : String} {identity : Option ResultIdentity} {review : Bool} :
    Holds (k.contract.within R) (ownedResult caller id identity review) (fun _ s => s = w) w := by
  refine holds_load.bind (fun l s _ hx => ?_) fun _ _ _ hs => hs.1
  obtain ⟨rfl, -, -⟩ := hx
  refine Holds.checkThen (fun _ => ?_) fun _ => rfl
  refine Holds.checkThen (fun _ => ?_) fun _ => rfl
  split
  · refine holds_readThen (c := .bindings) rfl (fun bindings _ => ?_) fun _ _ => rfl
    exact Holds.checkThen (fun _ => Holds.pure rfl) fun _ => rfl
  · exact Holds.checkThen (fun _ => Holds.pure rfl) fun _ => rfl

theorem holds_completeWork {product : WorkProduct} (hc : Calm k w) :
    Holds (k.contract.within anywhere) (completeWork l product) (fun _ s => Calm k s) w :=
  Holds.orRaiseThen (fun _ _ => (holds_event hc).wider fun _ _ h => h.anywhere) fun _ => hc

theorem holds_reportDone {caller : String} {identity : Option ResultIdentity} (hc : Calm k w) :
    Holds (k.contract.within anywhere) (reportDone caller id identity) (fun _ s => Calm k s) w := by
  refine holds_knownInstance.bind (fun _ s _ hs => ?_) fun _ _ _ hs => hs ▸ hc
  obtain rfl : s = w := hs
  refine holds_ownedResult.bind (fun l s' _ hs => ?_) fun _ _ _ hs => hs ▸ hc
  obtain rfl : s' = s := hs
  refine holds_team.bind (fun x s _ hx => ?_) fun _ _ _ hs => hs ▸ hc
  obtain ⟨rfl, -⟩ := hx
  refine Holds.orRaiseThen (fun repo _ => ?_) fun _ => hc
  refine holds_readThen (c := .bindings) rfl (fun bindings _ => ?_) fun _ _ => hc
  refine Holds.orRaiseThen (fun binding _ => ?_) fun _ => hc
  refine Holds.orRaiseThen (fun branch _ => ?_) fun _ => hc
  refine holds_readThen (c := .settings) rfl (fun (me : Settings) _ => ?_) fun _ _ => hc
  refine Holds.checkThen (fun _ => ?_) fun _ => hc
  refine holds_readThen (c := .revParse _ _) rfl (fun (head : String) _ => ?_) fun _ _ => hc
  refine holds_readThen (c := .ancestor _ _ _) rfl (fun (merged : Bool) _ => ?_) fun _ _ => hc
  refine Holds.checkThen (fun _ => ?_) fun _ => hc
  exact holds_readThen (c := .patchId _ _) rfl (fun (patch : String) _ => holds_completeWork hc)
    fun _ _ => hc

theorem holds_reportResult {caller summary : String} {output : Option String}
    {identity : Option ResultIdentity} (hc : Calm k w) :
    Holds (k.contract.within anywhere) (reportResult caller id summary output identity)
      (fun _ s => Calm k s) w := by
  refine holds_knownInstance.bind (fun _ s _ hs => ?_) fun _ _ _ hs => hs ▸ hc
  obtain rfl : s = w := hs
  refine holds_ownedResult.bind (fun l s' _ hs => ?_) fun _ _ _ hs => hs ▸ hc
  obtain rfl : s' = s := hs
  exact holds_completeWork hc

/-- A binding that was stored is given up if it is stored still. -/
theorem holds_review {caller : String} {identity : Option ResultIdentity}
    {reason : Option String} (hc : Calm k w) :
    Holds (k.contract.within anywhere) (review caller id identity reason)
      (fun _ s => Calm k s) w := by
  refine holds_knownInstance.bind (fun _ s _ hs => ?_) fun _ _ _ hs => hs ▸ hc
  obtain rfl : s = w := hs
  refine Holds.checkThen (fun _ => ?_) fun _ => hc
  refine holds_ownedResult.bind (fun l s' _ hs => ?_) fun _ _ _ hs => hs ▸ hc
  obtain rfl : s' = s := hs
  refine holds_readThen (c := .bindings) rfl (fun (bindings : List BindingRow) _ => ?_) fun _ _ => hc
  refine Holds.orRaiseThen (fun (binding : BindingRow) _ => ?_) fun _ => hc
  refine Holds.orRaiseThen (fun stage _ => ?_) fun _ => hc
  refine ((holds_event hc).wider fun _ _ h => h.anywhere).bind (fun _ s _ hc => ?_)
    fun _ _ _ hs => hs
  refine holds_readThen (c := .bindings) rfl (fun (bindings : List BindingRow) hb => ?_)
    fun _ _ => hc
  obtain rfl := replies_bindings.mp hb
  split
  · rename_i hmem
    have hget := Table.get_of_mem (Table.mem_values.mp (List.contains_iff_mem.mp hmem))
    have hrel := (holds_releaseMode (k := k) (w := s) (b := binding) (t := binding.task)
      .abandoned fun c hcb => by
        rw [hget] at hcb
        rw [Option.some.inj hcb]).bounded
    refine (hrel.wider fun _ _ _ => trivial).mono fun _ s' _ hres => ?_
    exact hc.fresher hres.2.tidies.eases.fresher
  · exact Holds.pure hc

theorem holds_acknowledge (hc : Calm k w) :
    Holds (k.contract.within anywhere) (acknowledge id) (fun _ s => Calm k s) w := by
  refine holds_readThen (c := .loadTask id) rfl (fun row _ => ?_) fun _ _ => hc
  refine Holds.orRaiseThen (fun p _ => ?_) fun _ => hc
  refine (holds_taskNote.bounded.wider fun _ _ _ => trivial).mono fun _ _ _ hres => ?_
  exact hc.fresher hres.2.eases.fresher

theorem holds_note_calm {reason : Option String} (hc : Calm k w) :
    Holds (k.contract.within anywhere) (note id reason) (fun _ s => Calm k s) w :=
  (holds_note.bounded.wider fun _ _ _ => trivial).mono fun _ _ _ hres =>
    hc.fresher hres.2.eases.fresher

theorem holds_checkResult {stageId : String} {attempt : Nat} {head : Option String}
    {result : CheckResult} (hc : Calm k w) :
    Holds (k.contract.within anywhere) (checkResult id stageId attempt head result)
      (fun _ s => Calm k s) w := by
  refine holds_load.bind (fun l s _ hx => ?_) fun _ s _ hs => hs.1 ▸ hc
  obtain ⟨rfl, -, -⟩ := hx
  split
  · split
    · exact holds_note_calm hc
    · exact holds_note_calm hc
    · exact (holds_event hc).wider fun _ _ h => h.anywhere
  · exact Holds.pure hc

theorem holds_operatorReview {shown : String} {reason : Option String} (hc : Calm k w) :
    Holds (k.contract.within anywhere) (operatorReview id shown reason)
      (fun _ s => Calm k s) w := by
  refine holds_load.bind (fun l s _ hx => ?_) fun _ s _ hs => hs.1 ▸ hc
  obtain ⟨rfl, -, -⟩ := hx
  refine Holds.checkThen (fun _ => ?_) fun _ => hc
  refine Holds.orRaiseThen (fun stage _ => ?_) fun _ => hc
  split
  · refine Holds.checkThen (fun _ => ?_) fun _ => hc
    exact (holds_event hc).wider fun _ _ h => h.anywhere
  · exact Holds.raise hc

end Agend.Engine
