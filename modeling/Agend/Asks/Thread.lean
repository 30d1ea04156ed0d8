import Agend.Client.Protocol
import Agend.Pipeline.Workflow

/-! Conversations between an agent and the operator. -/
namespace Agend.Client

open Pipeline (isBlank)

def AskEntry.isAnswer : AskEntry → Bool
  | .answer .. => true
  | _ => false

def AskThread.isResolved (t : AskThread) : Bool :=
  t.entries.any fun e => match e with
    | .resolution .. => true
    | _ => false

/-- Whether the reply answers a question with these options. -/
def AskReply.answers (options : List String) : AskReply → Bool
  | .choice chosen => options.contains chosen
  | .text written => !isBlank written
  | .unknown => false

/-- Whether the reply answers the thread now. -/
def AskThread.accepts (t : AskThread) (reply : AskReply) : Bool :=
  if t.isResolved then false
  else match t.entries.getLast? with
    | some (.question _ _ options) | some (.followUp _ _ options) => reply.answers options
    | _ => false

/-- What may directly follow an entry. -/
def AskEntry.Before : AskEntry → AskEntry → Prop
  | .question _ _ options, .answer _ _ reply => reply.answers options = true
  | .followUp _ _ options, .answer _ _ reply => reply.answers options = true
  | .answer .., .followUp .. => True
  | .question .., .resolution .. => True
  | .followUp .., .resolution .. => True
  | .answer .., .resolution .. => True
  | _, _ => False

/-- A question first; an answer after a question or a follow-up, which it answers; a follow-up
after an answer; and nothing after a resolution. -/
structure Dialogue (entries : List AskEntry) : Prop where
  first : ∃ sender text options, entries.head? = some (.question sender text options)
  next : ∀ i e e', entries[i]? = some e → entries[i + 1]? = some e' → e.Before e'

variable {entries : List AskEntry} {e last : AskEntry}

theorem Dialogue.start (sender text : String) (options : List String) :
    Dialogue [.question sender text options] :=
  ⟨⟨sender, text, options, rfl⟩, fun i _ _ _ h => by simp at h⟩

theorem Dialogue.ne_nil (h : Dialogue entries) : entries ≠ [] := by
  rintro rfl
  obtain ⟨sender, text, options, hhead⟩ := h.first
  cases hhead

theorem Dialogue.concat (h : Dialogue entries) (hlast : entries.getLast? = some last)
    (he : last.Before e) : Dialogue (entries ++ [e]) := by
  refine ⟨?_, fun i a b ha hb => ?_⟩
  · obtain ⟨sender, text, options, hhead⟩ := h.first
    exact ⟨sender, text, options, by rw [List.head?_append, hhead]; rfl⟩
  · rcases Nat.lt_trichotomy (i + 1) entries.length with hlt | heq | hgt
    · rw [List.getElem?_append_left (by omega)] at ha
      rw [List.getElem?_append_left hlt] at hb
      exact h.next i a b ha hb
    · rw [List.getElem?_append_left (by omega)] at ha
      rw [heq, List.getElem?_concat_length] at hb
      rw [List.getLast?_eq_getElem?] at hlast
      have hi : entries.length - 1 = i := by omega
      rw [hi, ha] at hlast
      cases hlast
      cases hb
      exact he
    · rw [List.getElem?_eq_none (by rw [List.length_append, List.length_singleton]; omega)] at hb
      cases hb

theorem Dialogue.known (h : Dialogue entries) (he : e ∈ entries) : e ≠ .unknown := by
  rintro rfl
  obtain ⟨i, hi⟩ := List.getElem?_of_mem he
  cases i with
  | zero =>
    obtain ⟨sender, text, options, hhead⟩ := h.first
    rw [List.head?_eq_getElem?, hi] at hhead
    cases hhead
  | succ i =>
    have hlt : i < entries.length := by
      have := (List.getElem?_eq_some_iff.mp hi).1
      omega
    have hbefore := h.next i entries[i] .unknown (List.getElem?_eq_getElem hlt) hi
    cases hcase : entries[i] <;> rw [hcase] at hbefore <;> exact hbefore

/-- What comes last in an open thread is no resolution. -/
theorem not_resolution_of_open {t : AskThread} (h : t.isResolved = false)
    (hlast : t.entries.getLast? = some last) : ∀ sender summary, last ≠ .resolution sender summary := by
  rintro sender summary rfl
  have hmem : AskEntry.resolution sender summary ∈ t.entries := List.mem_of_getLast? hlast
  have := List.any_eq_false.mp h _ hmem
  simp at this

theorem accepts_eq_true {t : AskThread} {reply : AskReply} (h : t.accepts reply = true) :
    ∃ last, t.entries.getLast? = some last ∧
      ∀ sender source, last.Before (.answer sender source reply) := by
  unfold AskThread.accepts at h
  split at h
  · cases h
  · split at h
    · rename_i hlast
      exact ⟨_, hlast, fun _ _ => h⟩
    · rename_i hlast
      exact ⟨_, hlast, fun _ _ => h⟩
    · cases h

end Agend.Client
