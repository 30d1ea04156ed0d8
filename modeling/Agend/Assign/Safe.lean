import Agend.Assign.Choose

/-! Nobody gets a second task, nobody reviews the own one, and the order of the candidates does
not count. -/
namespace Agend.Assign

open Library
open Agend.Runtime (Backend)

/-- A member of the requested role who can take a task now. -/
structure Free (request : AssignmentRequest) (c : Candidate) : Prop where
  team : c.teamId = request.teamId
  role : c.role = request.role
  allowed : c.backend ∈ request.allowedBackends
  usage : c.usageAvailable = true
  free : c.heldTask = none

/-- The named holder of the task that is reworked. -/
structure Holds (request : AssignmentRequest) (taskId taskHolder : String) (c : Candidate) :
    Prop where
  team : c.teamId = request.teamId
  name : c.instanceId = taskHolder
  task : c.heldTask = some taskId
  allowed : c.backend ∈ request.allowedBackends
  known : request.roleCapacity.isSome = true

/-- A free member that the purpose of the request does not rule out. -/
structure Eligible (request : AssignmentRequest) (candidates : List Candidate) (c : Candidate) :
    Prop where
  mem : c ∈ candidates
  free : Free request c
  reviewer : ∀ {taskHolder backend}, request.purpose = .review taskHolder backend →
    c.instanceId ≠ taskHolder
  successor : ∀ {taskId taskHolder branch reviewComments},
    request.purpose = .rework taskId taskHolder branch reviewComments →
      c.instanceId ≠ taskHolder ∧
        ∀ h ∈ candidates, Holds request taskId taskHolder h → c.backend ≠ h.backend

def UniqueIds (team : String) (candidates : List Candidate) : Prop :=
  ((candidates.filter (·.teamId = team)).map Candidate.instanceId).Nodup

instance (team : String) (candidates : List Candidate) : Decidable (UniqueIds team candidates) :=
  inferInstanceAs (Decidable (List.Nodup _))

theorem UniqueIds.eq {team : String} {candidates : List Candidate} {a b : Candidate}
    (hu : UniqueIds team candidates) (ha : a ∈ candidates) (hb : b ∈ candidates)
    (hta : a.teamId = team) (htb : b.teamId = team) (h : a.instanceId = b.instanceId) :
    a = b := by
  have hmem : ∀ c ∈ candidates, c.teamId = team →
      c ∈ candidates.filter (·.teamId = team) := by
    intro c hc htc
    exact List.mem_filter.mpr ⟨hc, decide_eq_true htc⟩
  exact List.inj_on_of_nodup_map hu (hmem a ha hta) (hmem b hb htb) h

theorem mem_freeCandidates {request : AssignmentRequest} {candidates : List Candidate}
    {exclude : Option String} {c : Candidate} :
    c ∈ freeCandidates request candidates exclude ↔
      c ∈ candidates ∧ Free request c ∧ exclude ≠ some c.instanceId := by
  simp only [freeCandidates, roleCandidates, mem_sortByKey, List.mem_filter, isAllowed,
    Candidate.isFree, Bool.and_eq_true, decide_eq_true_eq, Option.isNone_iff_eq_none]
  constructor
  · rintro ⟨⟨hmem, hteam, hrole⟩, ⟨⟨hallowed, husage⟩, hfree⟩, hne⟩
    exact ⟨hmem, ⟨hteam, hrole, hallowed, husage, hfree⟩, hne⟩
  · rintro ⟨hmem, hc, hne⟩
    exact ⟨⟨hmem, hc.team, hc.role⟩, ⟨⟨hc.allowed, hc.usage⟩, hc.free⟩, hne⟩

theorem isCurrent_iff {request : AssignmentRequest} {taskId taskHolder : String}
    {c : Candidate} : isCurrent request taskId taskHolder c = true ↔
      Holds request taskId taskHolder c := by
  simp only [isCurrent, isAllowed, Bool.and_eq_true, decide_eq_true_eq]
  constructor
  · rintro ⟨⟨⟨⟨hteam, hname⟩, htask⟩, hallowed⟩, hknown⟩
    exact ⟨hteam, hname, htask, hallowed, hknown⟩
  · rintro ⟨hteam, hname, htask, hallowed, hknown⟩
    exact ⟨⟨⟨⟨hteam, hname⟩, htask⟩, hallowed⟩, hknown⟩

theorem spawnBackend_spec {request : AssignmentRequest} {excluded : Option Backend}
    {backend : Backend} (h : spawnBackend request excluded = some backend) :
    ∃ capacity, request.roleCapacity = some capacity ∧
      capacity.currentInstances < capacity.maximumInstances ∧
      backend ∈ request.allowedBackends ∧ backend ∈ request.availableBackends ∧
      some backend ≠ excluded := by
  cases hcap : request.roleCapacity with
  | none => simp [spawnBackend, hcap] at h
  | some capacity =>
    simp only [spawnBackend, hcap] at h
    split at h
    case isTrue => simp at h
    case isFalse hroom =>
      simp only [Bool.or_eq_true, decide_eq_true_eq, not_or, Nat.not_le] at hroom
      have hfound := List.find?_some h
      simp only [Bool.and_eq_true, decide_eq_true_eq] at hfound
      exact ⟨capacity, rfl, hroom.2, List.mem_of_find?_eq_some h, hfound.2, hfound.1⟩

def Purpose.handoff : Purpose → Option Handoff
  | .rework _ taskHolder branch reviewComments => some ⟨taskHolder, branch, reviewComments⟩
  | _ => none

/-- What a fresh task or a review is given out by: for a review, the backend first. -/
def rank (request : AssignmentRequest) (c : Candidate) : Bool ×ₗ String :=
  match request.purpose with
  | .review _ taskHolderBackend => toLex (decide (c.backend = taskHolderBackend), c.instanceId)
  | _ => toLex (false, c.instanceId)

/-- Every decision, with what holds of the candidates where it is taken. -/
inductive Chosen (request : AssignmentRequest) (candidates : List Candidate) :
    AssignmentDecision → Prop
  | keeps {taskId taskHolder branch reviewComments h}
      (purpose : request.purpose = .rework taskId taskHolder branch reviewComments)
      (mem : h ∈ candidates) (holds : Holds request taskId taskHolder h)
      (usage : h.usageAvailable = true) : Chosen request candidates (.assigned taskHolder)
  | assigns {c} (fresh : request.purpose.handoff = none) (fits : Eligible request candidates c)
      (first : ∀ d, Eligible request candidates d → rank request c ≤ rank request d) :
      Chosen request candidates (.assigned c.instanceId)
  | reassigns {handoff c} (purpose : request.purpose.handoff = some handoff)
      (fits : Eligible request candidates c)
      (first : ∀ d, Eligible request candidates d → c.instanceId ≤ d.instanceId) :
      Chosen request candidates (.reassigned c.instanceId handoff)
  | spawns {capacity backend} (known : request.roleCapacity = some capacity)
      (room : capacity.currentInstances < capacity.maximumInstances)
      (nobody : ∀ c, ¬ Eligible request candidates c)
      (allowed : backend ∈ request.allowedBackends)
      (available : backend ∈ request.availableBackends)
      (apart : ∀ {taskId taskHolder branch reviewComments},
        request.purpose = .rework taskId taskHolder branch reviewComments →
          ∀ h ∈ candidates, Holds request taskId taskHolder h → backend ≠ h.backend) :
      Chosen request candidates (.spawnEphemeral backend request.purpose.handoff)
  | queues {reason} (why : (∀ c, ¬ Eligible request candidates c) ∨
        ∃ capacity, request.roleCapacity = some capacity ∧ validRoleCapacity capacity = false) :
      Chosen request candidates (.queue reason)
  | asks (unknown : request.roleCapacity = none) :
      Chosen request candidates (.askForRole request.role)

section

variable {request : AssignmentRequest} {candidates : List Candidate}

/-- A holder that cannot go on, or none at all, leaves the task to the others. -/
theorem takeOver_chosen {taskId taskHolder : String} {branch : Option String}
    {reviewComments : List String} {current : Option Candidate}
    (hp : request.purpose = .rework taskId taskHolder branch reviewComments)
    (hcurrent : ∀ h, current = some h ↔ h ∈ candidates ∧ Holds request taskId taskHolder h) :
    Chosen request candidates
      (takeOver request candidates current ⟨taskHolder, branch, reviewComments⟩) := by
  have hhandoff : request.purpose.handoff = some ⟨taskHolder, branch, reviewComments⟩ := by
    rw [hp]
    rfl
  have hbackend : ∀ b : Backend, some b ≠ current.map Candidate.backend ↔
      ∀ h ∈ candidates, Holds request taskId taskHolder h → b ≠ h.backend := by
    intro b
    cases current with
    | none =>
      refine iff_of_true (by simp) fun h hmem hholds => ?_
      exact absurd ((hcurrent h).mpr ⟨hmem, hholds⟩) (by simp)
    | some h =>
      simp only [Option.map_some, ne_eq, Option.some.injEq]
      constructor
      · intro hne h' hmem hholds
        rwa [← Option.some.inj ((hcurrent h').mpr ⟨hmem, hholds⟩)]
      · intro hall
        exact hall h ((hcurrent h).mp rfl).1 ((hcurrent h).mp rfl).2
  have hmem : ∀ c, Eligible request candidates c ↔
      c ∈ freeCandidates request candidates (some taskHolder) ∧
        some c.backend ≠ current.map Candidate.backend := by
    intro c
    rw [mem_freeCandidates, hbackend]
    constructor
    · intro hc
      obtain ⟨hne, hapart⟩ := hc.successor hp
      exact ⟨⟨hc.mem, hc.free, fun heq => hne (Option.some.inj heq).symm⟩, hapart⟩
    · rintro ⟨⟨hin, hfree, hne⟩, hapart⟩
      refine ⟨hin, hfree, fun hreview => ?_, fun hrework => ?_⟩
      · rw [hp] at hreview
        cases hreview
      · rw [hp] at hrework
        cases hrework
        exact ⟨fun heq => hne (congrArg some heq.symm), hapart⟩
  cases hcap : request.roleCapacity with
  | none =>
    rw [takeOver, hcap]
    exact .asks hcap
  | some capacity =>
    simp only [takeOver, hcap]
    split
    case isTrue hbad => exact .queues (.inr ⟨capacity, hcap, by simpa using hbad⟩)
    case isFalse =>
      split
      case h_1 c hfound =>
        have hpick := List.find?_some hfound
        simp only [decide_eq_true_eq] at hpick
        refine .reassigns hhandoff ((hmem c).mpr ⟨List.mem_of_find?_eq_some hfound, hpick⟩) ?_
        intro d hd
        obtain ⟨hin, hapart⟩ := (hmem d).mp hd
        refine find?_sortByKey hfound d ((mem_sortByKey _).mp hin) ?_
        simpa using hapart
      case h_2 hnobody =>
        have hnone : ∀ c, ¬ Eligible request candidates c := by
          intro c hc
          obtain ⟨hin, hapart⟩ := (hmem c).mp hc
          exact List.find?_eq_none.mp hnobody c hin (by simpa using hapart)
        split
        case h_1 backend hspawn =>
          obtain ⟨capacity', hknown, hroom, hallowed, havailable, hne⟩ := spawnBackend_spec hspawn
          rw [← hhandoff]
          refine .spawns hknown hroom hnone hallowed havailable fun hrework => ?_
          rw [hp] at hrework
          cases hrework
          exact (hbackend backend).mp hne
        case h_2 => exact .queues (.inl hnone)

theorem mem_eligible (hfresh : request.purpose.handoff = none) {c : Candidate} :
    c ∈ eligible request candidates ↔ Eligible request candidates c := by
  cases hp : request.purpose with
  | newTask =>
    simp only [eligible, hp, mem_freeCandidates]
    constructor
    · rintro ⟨hin, hfree, -⟩
      exact ⟨hin, hfree, by simp [hp], by simp [hp]⟩
    · intro hc
      exact ⟨hc.mem, hc.free, by simp⟩
  | review taskHolder backend =>
    simp only [eligible, hp, mem_sortByKey, List.mem_filter, mem_freeCandidates,
      decide_eq_true_eq]
    constructor
    · rintro ⟨⟨hin, hfree, -⟩, hne⟩
      refine ⟨hin, hfree, fun hreview => ?_, by simp [hp]⟩
      rw [hp] at hreview
      cases hreview
      exact hne
    · intro hc
      exact ⟨⟨hc.mem, hc.free, by simp⟩, hc.reviewer hp⟩
  | rework => simp [hp, Purpose.handoff] at hfresh

theorem head_eligible (hfresh : request.purpose.handoff = none) {c : Candidate}
    (h : (eligible request candidates).head? = some c) :
    ∀ d, Eligible request candidates d → rank request c ≤ rank request d := by
  intro d hd
  have hin := (mem_eligible hfresh).mpr hd
  cases hp : request.purpose with
  | newTask =>
    simp only [eligible, hp, freeCandidates, mem_sortByKey] at h hin
    simp only [rank, hp, Prod.Lex.toLex_le_toLex, lt_self_iff_false, true_and, false_or]
    exact (head_sortByKey h).2 d hin
  | review taskHolder backend =>
    simp only [eligible, hp, mem_sortByKey] at h hin
    simp only [rank, hp]
    exact (head_sortByKey h).2 d hin
  | rework => simp [hp, Purpose.handoff] at hfresh

theorem fresh_chosen (hfresh : request.purpose.handoff = none) :
    Chosen request candidates (choose request candidates) := by
  have hnever : ∀ {taskId taskHolder branch reviewComments},
      request.purpose ≠ .rework taskId taskHolder branch reviewComments := by
    intro taskId taskHolder branch reviewComments hp
    simp [hp, Purpose.handoff] at hfresh
  have hnone : (eligible request candidates).head? = none →
      ∀ c, ¬ Eligible request candidates c := by
    intro hhead c hc
    have hin := (mem_eligible hfresh).mpr hc
    rw [List.head?_eq_none_iff.mp hhead] at hin
    exact List.not_mem_nil hin
  unfold choose
  split
  case h_1 hp => exact absurd hp hnever
  case h_2 =>
    split
    case h_1 hunknown => exact .asks hunknown
    case h_2 capacity hknown =>
      split
      case isTrue hbad => exact .queues (.inr ⟨capacity, hknown, by simpa using hbad⟩)
      case isFalse =>
        split
        case h_1 c hhead =>
          have hin := (mem_eligible hfresh).mp (List.mem_of_head? hhead)
          exact .assigns hfresh hin (head_eligible hfresh hhead)
        case h_2 hhead =>
          split
          case isTrue => exact .queues (.inl (hnone hhead))
          case isFalse =>
            split
            case h_1 backend hspawn =>
              have hany : ∃ excluded, spawnBackend request excluded = some backend := by
                rcases Option.or_eq_some_iff.mp hspawn with hpreferred | ⟨-, hplain⟩
                · unfold preferredSpawn at hpreferred
                  split at hpreferred
                  · exact ⟨_, hpreferred⟩
                  · simp at hpreferred
                · exact ⟨none, hplain⟩
              obtain ⟨excluded, hspawn⟩ := hany
              obtain ⟨capacity', hknown', hroom, hallowed, havailable, -⟩ :=
                spawnBackend_spec hspawn
              rw [← hfresh]
              exact .spawns hknown' hroom (hnone hhead) hallowed havailable
                fun hp => absurd hp hnever
            case h_2 =>
              split
              · exact .queues (.inl (hnone hhead))
              · exact .queues (.inl (hnone hhead))

theorem choose_chosen (hu : UniqueIds request.teamId candidates) :
    Chosen request candidates (choose request candidates) := by
  cases hp : request.purpose with
  | newTask => exact fresh_chosen (by rw [hp]; rfl)
  | review => exact fresh_chosen (by rw [hp]; rfl)
  | rework taskId taskHolder branch reviewComments =>
    simp only [choose, hp]
    split
    case h_1 h hfound =>
      have hmem := List.mem_of_find?_eq_some hfound
      have hholds := isCurrent_iff.mp (List.find?_some hfound)
      split
      case isTrue husage => exact .keeps hp hmem hholds husage
      case isFalse =>
        refine takeOver_chosen hp fun h' => ⟨?_, ?_⟩
        · rintro ⟨⟩
          exact ⟨hmem, hholds⟩
        · rintro ⟨hmem', hholds'⟩
          have hid := hholds.name.trans hholds'.name.symm
          exact congrArg some (hu.eq hmem hmem' hholds.team hholds'.team hid)
    case h_2 hnobody =>
      refine takeOver_chosen hp fun h => ⟨by simp, ?_⟩
      rintro ⟨hmem, hholds⟩
      exact absurd (isCurrent_iff.mpr hholds) (List.find?_eq_none.mp hnobody h hmem)

end

def AssignmentDecision.Names (decision : AssignmentDecision) (id : String) : Prop :=
  decision = .assigned id ∨ ∃ handoff, decision = .reassigned id handoff

/-- What a decision may rely on, and what it may not do. -/
structure Safe (request : AssignmentRequest) (candidates : List Candidate)
    (decision : AssignmentDecision) : Prop where
  fits : ∀ id, decision.Names id → ∃ c ∈ candidates, c.instanceId = id ∧
    c.teamId = request.teamId ∧ c.backend ∈ request.allowedBackends ∧ c.usageAvailable = true ∧
    ((∃ taskId branch reviewComments,
        request.purpose = .rework taskId id branch reviewComments ∧ c.heldTask = some taskId) ∨
      c.role = request.role ∧ c.heldTask = none)
  reviewer : ∀ taskHolder backend, request.purpose = .review taskHolder backend →
    ∀ id, decision.Names id → id ≠ taskHolder ∧
      ((∃ d, Eligible request candidates d ∧ d.backend ≠ backend) →
        ∀ c ∈ candidates, c.teamId = request.teamId → c.instanceId = id → c.backend ≠ backend)
  spawns : ∀ backend handoff, decision = .spawnEphemeral backend handoff →
    (∃ capacity, request.roleCapacity = some capacity ∧
      capacity.currentInstances < capacity.maximumInstances) ∧
    (∀ c, ¬ Eligible request candidates c) ∧
    backend ∈ request.allowedBackends ∧ backend ∈ request.availableBackends
  limited : ∀ taskId taskHolder branch reviewComments,
    request.purpose = .rework taskId taskHolder branch reviewComments →
      ∀ h ∈ candidates, Holds request taskId taskHolder h → h.usageAvailable = false →
        (∀ id, decision.Names id → ∀ c ∈ candidates, c.teamId = request.teamId →
          c.instanceId = id → c.backend ≠ h.backend) ∧
        ∀ backend handoff, decision = .spawnEphemeral backend handoff → backend ≠ h.backend
  /-- Without a holder the backend is of no account: the first free member takes the task. -/
  removed : ∀ taskId taskHolder branch reviewComments capacity,
    request.purpose = .rework taskId taskHolder branch reviewComments →
      (∀ h ∈ candidates, ¬ Holds request taskId taskHolder h) →
        request.roleCapacity = some capacity → validRoleCapacity capacity = true →
          ∀ c ∈ candidates, Free request c → c.instanceId ≠ taskHolder →
            (∀ d ∈ candidates, Free request d → d.instanceId ≠ taskHolder →
              c.instanceId ≤ d.instanceId) →
            decision = .reassigned c.instanceId ⟨taskHolder, branch, reviewComments⟩
  handsOver : (∀ id handoff, decision = .reassigned id handoff →
      request.purpose.handoff = some handoff) ∧
    ∀ backend handoff, decision = .spawnEphemeral backend handoff →
      handoff = request.purpose.handoff

section

variable {request : AssignmentRequest} {candidates : List Candidate}
  {decision : AssignmentDecision}

/-- The named agent: the holder that keeps its task, or a free member. -/
theorem Chosen.named (h : Chosen request candidates decision) {id : String}
    (hid : decision.Names id) :
    (∃ taskId branch reviewComments c,
      request.purpose = .rework taskId id branch reviewComments ∧ c ∈ candidates ∧
        Holds request taskId id c ∧ c.usageAvailable = true) ∨
    ∃ c, c.instanceId = id ∧ Eligible request candidates c ∧
      (request.purpose.handoff = none →
        ∀ d, Eligible request candidates d → rank request c ≤ rank request d) := by
  cases h with
  | keeps purpose mem holds usage =>
    rcases hid with heq | ⟨handoff, heq⟩
    · cases heq
      exact .inl ⟨_, _, _, _, purpose, mem, holds, usage⟩
    · cases heq
  | assigns fresh fits first =>
    rcases hid with heq | ⟨handoff, heq⟩
    · cases heq
      exact .inr ⟨_, rfl, fits, fun _ => first⟩
    · cases heq
  | reassigns purpose fits first =>
    rcases hid with heq | ⟨handoff, heq⟩
    · cases heq
    · cases heq
      refine .inr ⟨_, rfl, fits, fun hnone => ?_⟩
      rw [purpose] at hnone
      cases hnone
  | spawns | queues | asks =>
    rcases hid with heq | ⟨handoff, heq⟩
    · cases heq
    · cases heq

theorem Chosen.fits (h : Chosen request candidates decision) {id : String}
    (hid : decision.Names id) : ∃ c ∈ candidates, c.instanceId = id ∧
      c.teamId = request.teamId ∧ c.backend ∈ request.allowedBackends ∧ c.usageAvailable = true ∧
      ((∃ taskId branch reviewComments,
          request.purpose = .rework taskId id branch reviewComments ∧ c.heldTask = some taskId) ∨
        c.role = request.role ∧ c.heldTask = none) := by
  rcases h.named hid with ⟨taskId, branch, comments, c, hp, hmem, hc, husage⟩ | ⟨c, hname, hc, -⟩
  · exact ⟨c, hmem, hc.name, hc.team, hc.allowed, husage, .inl ⟨_, _, _, hp, hc.task⟩⟩
  · have hfree := hc.free
    exact ⟨c, hc.mem, hname, hfree.team, hfree.allowed, hfree.usage, .inr ⟨hfree.role, hfree.free⟩⟩

theorem Chosen.reviewer (h : Chosen request candidates decision)
    (hu : UniqueIds request.teamId candidates) {taskHolder : String} {backend : Backend}
    (hp : request.purpose = .review taskHolder backend) {id : String} (hid : decision.Names id) :
    id ≠ taskHolder ∧ ((∃ d, Eligible request candidates d ∧ d.backend ≠ backend) →
      ∀ c ∈ candidates, c.teamId = request.teamId → c.instanceId = id → c.backend ≠ backend) := by
  rcases h.named hid with ⟨_, _, _, _, hrework, -⟩ | ⟨c, hname, hc, hfirst⟩
  · rw [hp] at hrework
    cases hrework
  · refine ⟨hname ▸ hc.reviewer hp, ?_⟩
    rintro ⟨d, hd, hother⟩ c' hmem hteam hname'
    have hsame : c' = c := hu.eq hmem hc.mem hteam hc.free.team (hname'.trans hname.symm)
    have hle := hfirst (by rw [hp]; rfl) d hd
    simp only [rank, hp, Prod.Lex.toLex_le_toLex, hother, decide_false] at hle
    -- the first component of the rank cannot be larger than the one of `d`
    rcases hle with hlt | ⟨heq, -⟩
    · exact absurd (Bool.lt_iff.mp hlt).2 Bool.false_ne_true
    · rw [hsame]
      exact of_decide_eq_false heq

theorem Chosen.limited (h : Chosen request candidates decision)
    (hu : UniqueIds request.teamId candidates) {taskId taskHolder : String}
    {branch : Option String} {reviewComments : List String}
    (hp : request.purpose = .rework taskId taskHolder branch reviewComments) {holder : Candidate}
    (hmem : holder ∈ candidates) (hholds : Holds request taskId taskHolder holder)
    (husage : holder.usageAvailable = false) {id : String} (hid : decision.Names id)
    {c : Candidate} (hc : c ∈ candidates) (hteam : c.teamId = request.teamId)
    (hname : c.instanceId = id) : c.backend ≠ holder.backend := by
  rcases h.named hid with ⟨_, _, _, h', hp', hmem', hholds', husage'⟩ | ⟨c', hname', hc', -⟩
  · rw [hp] at hp'
    cases hp'
    have hsame := hu.eq hmem hmem' hholds.team hholds'.team (hholds.name.trans hholds'.name.symm)
    rw [hsame, husage'] at husage
    cases husage
  · have hsame := hu.eq hc hc'.mem hteam hc'.free.team (hname.trans hname'.symm)
    rw [hsame]
    exact (hc'.successor hp).2 holder hmem hholds

theorem Chosen.removed (h : Chosen request candidates decision)
    {taskId taskHolder : String}
    {branch : Option String} {reviewComments : List String} {capacity : RoleCapacity}
    (hp : request.purpose = .rework taskId taskHolder branch reviewComments)
    (hgone : ∀ h ∈ candidates, ¬ Holds request taskId taskHolder h)
    (hknown : request.roleCapacity = some capacity) (hvalid : validRoleCapacity capacity = true)
    {c : Candidate} (hmem : c ∈ candidates) (hfree : Free request c)
    (hother : c.instanceId ≠ taskHolder)
    (hfirst : ∀ d ∈ candidates, Free request d → d.instanceId ≠ taskHolder →
      c.instanceId ≤ d.instanceId) :
    decision = .reassigned c.instanceId ⟨taskHolder, branch, reviewComments⟩ := by
  have hc : Eligible request candidates c := by
    refine ⟨hmem, hfree, by simp [hp], fun hp' => ?_⟩
    rw [hp] at hp'
    cases hp'
    exact ⟨hother, fun h' hmem' hholds => absurd hholds (hgone h' hmem')⟩
  cases h with
  | keeps purpose mem holds usage =>
    rw [hp] at purpose
    cases purpose
    exact absurd holds (hgone _ mem)
  | assigns fresh fits first => simp [hp, Purpose.handoff] at fresh
  | reassigns purpose fits first =>
    rw [hp] at purpose
    cases purpose
    have hle := hfirst _ fits.mem fits.free (fits.successor hp).1
    rw [le_antisymm (first c hc) hle]
  | spawns known room nobody allowed available apart => exact absurd hc (nobody c)
  | queues why =>
    rcases why with hnone | ⟨capacity', hknown', hbad⟩
    · exact absurd hc (hnone c)
    · rw [hknown] at hknown'
      cases hknown'
      rw [hvalid] at hbad
      cases hbad
  | asks unknown =>
    rw [hknown] at unknown
    cases unknown

theorem Chosen.safe (h : Chosen request candidates decision)
    (hu : UniqueIds request.teamId candidates) : Safe request candidates decision where
  fits _ hid := h.fits hid
  reviewer _ _ hp _ hid := h.reviewer hu hp hid
  spawns := by
    rintro backend handoff rfl
    cases h with
    | spawns known room nobody allowed available apart =>
      exact ⟨⟨_, known, room⟩, nobody, allowed, available⟩
  limited := by
    intro taskId taskHolder branch reviewComments hp holder hmem hholds husage
    refine ⟨fun id hid c hc => h.limited hu hp hmem hholds husage hid hc, ?_⟩
    rintro backend handoff rfl
    cases h with
    | spawns known room nobody allowed available apart => exact apart hp holder hmem hholds
  removed _ _ _ _ _ hp hgone hknown hvalid _ hmem hfree hother hfirst :=
    h.removed hp hgone hknown hvalid hmem hfree hother hfirst
  handsOver := by
    constructor
    · rintro id handoff rfl
      cases h with
      | reassigns purpose fits first => exact purpose
    · rintro backend handoff rfl
      cases h with
      | spawns known room nobody allowed available apart => rfl

end

section

variable {request : AssignmentRequest} {candidates candidates' : List Candidate}

theorem freeCandidates_congr (hu : UniqueIds request.teamId candidates)
    (hperm : candidates.Perm candidates') (exclude : Option String) :
    freeCandidates request candidates exclude = freeCandidates request candidates' exclude := by
  refine sortByKey_congr ?_ ((hperm.filter _).filter _)
  intro a ha b hb hid
  have ha' := mem_freeCandidates.mp ((mem_sortByKey Candidate.instanceId).mpr ha)
  have hb' := mem_freeCandidates.mp ((mem_sortByKey Candidate.instanceId).mpr hb)
  exact hu.eq ha'.1 hb'.1 ha'.2.1.team hb'.2.1.team hid

theorem eligible_congr (hu : UniqueIds request.teamId candidates)
    (hperm : candidates.Perm candidates') :
    eligible request candidates = eligible request candidates' := by
  simp only [eligible, freeCandidates_congr hu hperm]

theorem find?_isCurrent_congr (hu : UniqueIds request.teamId candidates)
    (hperm : candidates.Perm candidates') (taskId taskHolder : String) :
    candidates.find? (isCurrent request taskId taskHolder) =
      candidates'.find? (isCurrent request taskId taskHolder) := by
  refine find?_congr (fun a ha b hb hca hcb => ?_) hperm
  have ha' := isCurrent_iff.mp hca
  have hb' := isCurrent_iff.mp hcb
  exact hu.eq ha hb ha'.team hb'.team (ha'.name.trans hb'.name.symm)

theorem roleCandidates_perm (hperm : candidates.Perm candidates') :
    (roleCandidates request candidates).Perm (roleCandidates request candidates') :=
  hperm.filter _

theorem isEmpty_roleCandidates_congr (hperm : candidates.Perm candidates') :
    (roleCandidates request candidates).isEmpty =
      (roleCandidates request candidates').isEmpty := by
  have hlength := (@roleCandidates_perm request _ _ hperm).length_eq
  rw [Bool.eq_iff_iff, List.isEmpty_iff_length_eq_zero, List.isEmpty_iff_length_eq_zero, hlength]

theorem onlyHolder_congr (hperm : candidates.Perm candidates') :
    onlyHolder request candidates = onlyHolder request candidates' := by
  unfold onlyHolder
  split
  · rw [isEmpty_roleCandidates_congr hperm, (roleCandidates_perm hperm).all_eq]
  · rfl

theorem takeOver_congr (hu : UniqueIds request.teamId candidates)
    (hperm : candidates.Perm candidates') (current : Option Candidate) (handoff : Handoff) :
    takeOver request candidates current handoff =
      takeOver request candidates' current handoff := by
  simp only [takeOver, freeCandidates_congr hu hperm]

theorem choose_congr (hu : UniqueIds request.teamId candidates)
    (hperm : candidates.Perm candidates') :
    choose request candidates = choose request candidates' := by
  simp only [choose, find?_isCurrent_congr hu hperm, takeOver_congr hu hperm,
    eligible_congr hu hperm, isEmpty_roleCandidates_congr hperm, onlyHolder_congr hperm]

end

/-- Where the ids of the team are unique, every decision is safe and the order in which the
daemon lists the candidates has no part in it. -/
theorem assignment_safe (request : AssignmentRequest) (candidates : List Candidate)
    (hu : UniqueIds request.teamId candidates) :
    Safe request candidates (choose request candidates) ∧
      ∀ candidates', candidates.Perm candidates' →
        choose request candidates' = choose request candidates :=
  ⟨(choose_chosen hu).safe hu, fun _ hperm => (choose_congr hu hperm).symm⟩

/-- A removed holder is replaced on its own backend, by the free member with the first id. -/
theorem assignment_safe_removed :
    let request : AssignmentRequest :=
      ⟨"t", "dev", [.claude, .codex], [.claude], some ⟨1, 3, 2⟩,
        .rework "T-1" "a" (some "agend/T-1") ["rename the flag"]⟩
    let candidates : List Candidate :=
      [⟨"c", "t", "dev", .codex, none, false, true⟩, ⟨"b", "t", "dev", .claude, none, false, true⟩,
        ⟨"a", "t", "dev", .claude, some "T-2", false, true⟩]
    choose request candidates = .reassigned "b" ⟨"a", some "agend/T-1", ["rename the flag"]⟩ ∧
      Safe request candidates (choose request candidates) ∧
        choose request candidates.reverse = choose request candidates := by
  intro request candidates
  have hu : UniqueIds request.teamId candidates := by decide
  have hall := assignment_safe request candidates hu
  exact ⟨by decide, hall.1, hall.2 _ (List.reverse_perm _).symm⟩

end Agend.Assign
