import AgentShim.Frontends.ResponsesDecode

/-
  The leading run of system messages

  The decoders of message lists fold the system messages a conversation starts
  with into the session's instructions, and leave the later ones at their place.
  What one message does is stated of a decoder's own step; what a whole list
  does follows here, once for all of them.

  What is proved:
    1. `FoldsPrelude.foldlM` — the instructions are those of the leading run, the
       messages those of the rest, one by one.
-/

namespace AgentShim

open OpenAiResponses (FrontendError Decoding)

variable {ι : Type*}

/-- What one message does: a system message of the leading run becomes an
instruction, any other a message, and the first that is none ends the run. -/
structure FoldsPrelude (step : Decoding → ι → Except FrontendError Decoding) (isSystem : ι → Bool)
    (Leading : ι → SystemInstruction → Prop) (Later : ι → Message → Prop) : Prop where
  leading : ∀ {s s' : Decoding} {m : ι}, step s m = .ok s' → isSystem m = true →
    s.preludePhase = true →
      ∃ sys, Leading m sys ∧ s' = { s with system := s.system ++ [sys] }
  later : ∀ {s s' : Decoding} {m : ι}, step s m = .ok s' →
    (isSystem m = true → s.preludePhase = false) →
      ∃ msg, Later m msg ∧ s'.system = s.system ∧ s'.out = s.out ++ [msg] ∧
        s'.preludePhase = false

namespace FoldsPrelude

variable {step : Decoding → ι → Except FrontendError Decoding} {isSystem : ι → Bool}
  {Leading : ι → SystemInstruction → Prop} {Later : ι → Message → Prop} {s s' : Decoding}

/-- After the leading run every message is pushed. -/
theorem foldlM_later (hstep : FoldsPrelude step isSystem Leading Later) {msgs : List ι}
    (hphase : s.preludePhase = false) (h : msgs.foldlM step s = .ok s') :
    ∃ out, List.Forall₂ Later msgs out ∧ s'.system = s.system ∧ s'.out = s.out ++ out := by
  induction msgs generalizing s with
  | nil =>
    cases h
    exact ⟨[], .nil, rfl, (List.append_nil _).symm⟩
  | cons m msgs ih =>
    rw [List.foldlM_cons] at h
    obtain ⟨mid, hmid, hrest⟩ := Checks.do_eq_ok.mp h
    obtain ⟨msg, hmsg, hsystem, hout, hmidphase⟩ := hstep.later hmid fun _ => hphase
    obtain ⟨out, hmsgs, hsystem', hout'⟩ := ih hmidphase hrest
    refine ⟨msg :: out, .cons hmsg hmsgs, hsystem'.trans hsystem, ?_⟩
    rw [hout', hout, List.append_assoc, List.singleton_append]

theorem foldlM (hstep : FoldsPrelude step isSystem Leading Later) {msgs : List ι}
    (hphase : s.preludePhase = true) (h : msgs.foldlM step s = .ok s') :
    ∃ system out, List.Forall₂ Leading (msgs.takeWhile isSystem) system ∧
      List.Forall₂ Later (msgs.dropWhile isSystem) out ∧
      s'.system = s.system ++ system ∧ s'.out = s.out ++ out := by
  induction msgs generalizing s with
  | nil =>
    cases h
    exact ⟨[], [], .nil, .nil, (List.append_nil _).symm, (List.append_nil _).symm⟩
  | cons m msgs ih =>
    rw [List.foldlM_cons] at h
    obtain ⟨mid, hmid, hrest⟩ := Checks.do_eq_ok.mp h
    cases hsystem : isSystem m with
    | true =>
      obtain ⟨sys, hsys, rfl⟩ := hstep.leading hmid hsystem hphase
      obtain ⟨system, out, hleading, hlater, hs, hout⟩ :=
        ih (s := { s with system := s.system ++ [sys] }) hphase hrest
      rw [List.takeWhile_cons_of_pos hsystem, List.dropWhile_cons_of_pos hsystem]
      exact ⟨sys :: system, out, .cons hsys hleading, hlater,
        hs.trans (List.append_cons _ _ _).symm, hout⟩
    | false =>
      have hnot : ¬ isSystem m = true := by
        rw [hsystem]
        exact Bool.false_ne_true
      obtain ⟨msg, hmsg, hs, hout, hmidphase⟩ :=
        hstep.later hmid fun hyes => absurd hyes hnot
      obtain ⟨out, hmsgs, hs', hout'⟩ := hstep.foldlM_later hmidphase hrest
      rw [List.takeWhile_cons_of_neg hnot, List.dropWhile_cons_of_neg hnot]
      refine ⟨[], msg :: out, .nil, .cons hmsg hmsgs, ?_, ?_⟩
      · rw [hs', hs, List.append_nil]
      · rw [hout', hout, List.append_assoc, List.singleton_append]

/-- From nothing decoded yet. -/
theorem decoded (hstep : FoldsPrelude step isSystem Leading Later) {msgs : List ι}
    (h : msgs.foldlM step .start = .ok s) :
    List.Forall₂ Leading (msgs.takeWhile isSystem) s.system ∧
      List.Forall₂ Later (msgs.dropWhile isSystem) s.out := by
  obtain ⟨system, out, hleading, hlater, hsystem, hout⟩ := hstep.foldlM rfl h
  rw [hsystem, hout]
  exact ⟨hleading, hlater⟩

end FoldsPrelude

end AgentShim
