import Quackapi.WebSocket.SessionSteps

/-! What every session keeps, whatever the interleaving: after a Close no frame but the answers to
pings, no more bytes than the limit, the messages in their order, and one row in the access log. -/

namespace Quackapi.WebSocket
open Library
open SessionEffect

section
variable {B : Type} {cfg : SessionConfig B} {s s' : SessionState B} {a : SessionAction}
  {es : List (SessionEffect B)}

/-- The counters, and the rows that were handed to the stream: all of them counted but the one whose
sending ends the session. -/
structure RowsKept (cfg : SessionConfig B) (es : List (SessionEffect B)) (s : SessionState B) :
    Prop where
  bytes : (es.filterMap rowCounted).flatten.length = s.bytesSent
  rows : (es.filterMap rowCounted).length = s.rowsSent
  lost : ∃ lost, es.filterMap rowHanded = es.filterMap rowCounted ++ lost ∧ lost.length ≤ 1 ∧
    (s.point.isOpen = true → lost = [])
  limit : (es.filterMap rowHanded).flatten.length ≤ cfg.maxResponseBytes

theorem RowsKept.unseen {old : List (SessionEffect B)} (h : RowsKept cfg old s)
    (hhanded : es.filterMap rowHanded = []) (hcounted : es.filterMap rowCounted = [])
    (hbytes : s'.bytesSent = s.bytesSent) (hrows : s'.rowsSent = s.rowsSent)
    (hopen : s'.point.isOpen = true → s.point.isOpen = true) : RowsKept cfg (old ++ es) s' := by
  obtain ⟨lost, hlost, hlength, hnone⟩ := h.lost
  refine ⟨?_, ?_, ⟨lost, ?_, hlength, fun hp => hnone (hopen hp)⟩, ?_⟩
  · rw [List.filterMap_append, hcounted, List.append_nil, h.bytes, hbytes]
  · rw [List.filterMap_append, hcounted, List.append_nil, h.rows, hrows]
  · simpa only [List.filterMap_append, hcounted, hhanded, List.append_nil] using hlost
  · rw [List.filterMap_append, hhanded, List.append_nil]
    exact h.limit

theorem RowsKept.quiet {old : List (SessionEffect B)} (h : RowsKept cfg old s) (hq : Quiet s s' es) :
    RowsKept cfg (old ++ es) s' := by
  obtain ⟨fs, rfl⟩ := hq.controls
  refine h.unseen (filterMap_controls (fun _ => rfl) fs) (filterMap_controls (fun _ => rfl) fs)
    hq.kept.1 hq.kept.2.1 fun hopen => ?_
  rcases hq.point with heq | ⟨hs, -⟩
  · rwa [← heq]
  · exact hs

theorem RowsKept.step {old : List (SessionEffect B)} (h : RowsKept cfg old s)
    (hstep : SessionSteps cfg s a s' es) : RowsKept cfg (old ++ es) s' := by
  cases hstep with
  | idle => exact h.unseen rfl rfl rfl rfl id
  | stopped => exact h.unseen rfl rfl rfl rfl id
  | pinged hopen sent => exact h.quiet (quiet_pinged hopen sent)
  | moved hfrom hto hfits => exact h.quiet (quiet_moved hfrom hto)
  | reads hp ha => exact h.quiet (quiet_receiveStep hp _)
  | closes hp status reason => exact h.quiet (quiet_closeSession hp status reason)
  | handles hp hrunning hb => exact h.unseen rfl rfl rfl rfl fun _ => by rw [hp]; rfl
  | refuses hp hrunning hb =>
    refine h.unseen ?_ ?_ rfl rfl fun _ => by rw [hp]; rfl
    · cases s.closed <;> rfl
    · cases s.closed <;> rfl
  | runs hp names => exact h.unseen rfl rfl rfl rfl fun _ => by rw [hp]; rfl
  | fails hp reason =>
    rw [closeSession_effects]
    refine h.unseen ?_ ?_ rfl rfl fun he => by cases he
    · exact filterMap_controls (fun _ => rfl) _
    · exact filterMap_controls (fun _ => rfl) _
  | finishes hp =>
    have hgone : ¬ (finishSession s).1.point.isOpen = true := Bool.false_ne_true
    refine h.unseen ?_ ?_ rfl rfl fun he => absurd he hgone
    · exact filterMap_finishSession (fun _ => rfl) (fun _ _ => rfl) s
    · exact filterMap_finishSession (fun _ => rfl) (fun _ _ => rfl) s
  | @sends names hp hopen data hroom =>
    -- nothing was lost before, or the session would be ending
    obtain ⟨lost, hlost, -, hnone⟩ := h.lost
    have hall : old.filterMap rowHanded = old.filterMap rowCounted := by
      rw [hlost, hnone (by rw [hp]; rfl), List.append_nil]
    refine ⟨?_, ?_, ⟨[], ?_, by simp, fun _ => rfl⟩, ?_⟩
    · simp [rowCounted, ← h.bytes]
    · simp [rowCounted, ← h.rows]
    · simp [rowCounted, rowHanded, hall]
    · rw [List.filterMap_append, hall, List.flatten_append, List.length_append, h.bytes]
      simpa [rowHanded] using hroom
  | @loses names hp hopen data hroom =>
    obtain ⟨lost, hlost, -, hnone⟩ := h.lost
    have hall : old.filterMap rowHanded = old.filterMap rowCounted := by
      rw [hlost, hnone (by rw [hp]; rfl), List.append_nil]
    have huncounted : (old ++ [SessionEffect.row data false]).filterMap rowCounted =
        old.filterMap rowCounted := by
      rw [List.filterMap_append]
      exact List.append_nil _
    refine ⟨?_, ?_, ⟨[data], ?_, by simp, fun he => by cases he⟩, ?_⟩
    · rw [huncounted, h.bytes]
    · rw [huncounted, h.rows]
    · rw [huncounted, List.filterMap_append, hall]
      rfl
    · rw [List.filterMap_append, hall, List.flatten_append, List.length_append, h.bytes]
      simpa [rowHanded] using hroom

theorem fits_step (h : s.point.Fits cfg.takesMessage) (hstep : SessionSteps cfg s a s' es) :
    s'.point.Fits cfg.takesMessage := by
  cases hstep with
  | idle => exact h
  | stopped => exact h
  | pinged => exact h
  | moved hfrom hto hfits => exact hfits h
  | reads hp ha => exact (nextPoint_cases cfg _).2.2
  | refuses hp => rwa [hp] at h
  | sends => exact h
  | _ => trivial

/-- A reply is for every message that does not bind while the connection is open, and in the order of
the messages. -/
def RepliesKept (cfg : SessionConfig B) (es : List (SessionEffect B)) (s : SessionState B) : Prop :=
  es.filterMap replied <+: (es.filterMap messageHandled).filterMap (refusal cfg) ∧
    (s.closed = false →
      es.filterMap replied = (es.filterMap messageHandled).filterMap (refusal cfg))

theorem RepliesKept.unseen {old : List (SessionEffect B)} (h : RepliesKept cfg old s)
    (hreplied : es.filterMap replied = []) (hhandled : es.filterMap messageHandled = [])
    (hclosed : s.closed = true → s'.closed = true) : RepliesKept cfg (old ++ es) s' := by
  have hmono : s'.closed = false → s.closed = false := by
    intro h'
    cases hc : s.closed with
    | false => rfl
    | true => rw [hclosed hc] at h'; cases h'
  unfold RepliesKept
  rw [List.filterMap_append, List.filterMap_append, hreplied, hhandled, List.append_nil,
    List.append_nil]
  exact ⟨h.1, fun h' => h.2 (hmono h')⟩

theorem RepliesKept.quiet {old : List (SessionEffect B)} (h : RepliesKept cfg old s)
    (hq : Quiet s s' es) : RepliesKept cfg (old ++ es) s' := by
  obtain ⟨fs, rfl⟩ := hq.controls
  exact h.unseen (filterMap_controls (fun _ => rfl) fs) (filterMap_controls (fun _ => rfl) fs) hq.closed

theorem RepliesKept.step {old : List (SessionEffect B)} (h : RepliesKept cfg old s)
    (hstep : SessionSteps cfg s a s' es) : RepliesKept cfg (old ++ es) s' := by
  have hsilent : ∀ msg, (old ++ [SessionEffect.handled msg]).filterMap replied =
      old.filterMap replied := by
    intro msg
    rw [List.filterMap_append]
    exact List.append_nil _
  have hhandled : ∀ msg, (old ++ [SessionEffect.handled msg]).filterMap messageHandled =
      old.filterMap messageHandled ++ [msg] := fun _ => List.filterMap_append
  cases hstep with
  | idle => exact h.unseen rfl rfl id
  | stopped => exact h.unseen rfl rfl id
  | pinged hopen sent => exact h.quiet (quiet_pinged hopen sent)
  | moved hfrom hto hfits => exact h.quiet (quiet_moved hfrom hto)
  | reads hp ha => exact h.quiet (quiet_receiveStep hp _)
  | closes hp status reason => exact h.quiet (quiet_closeSession hp status reason)
  | runs hp names => exact h.unseen rfl rfl id
  | sends hp hopen hroom => exact h.unseen rfl rfl id
  | loses hp hopen hroom => exact h.unseen rfl rfl id
  | fails hp reason =>
    rw [closeSession_effects]
    refine h.unseen ?_ ?_ fun _ => rfl
    · exact filterMap_controls (fun _ => rfl) _
    · exact filterMap_controls (fun _ => rfl) _
  | finishes hp =>
    refine h.unseen ?_ ?_ fun _ => rfl
    · exact filterMap_finishSession (fun _ => rfl) (fun _ _ => rfl) s
    · exact filterMap_finishSession (fun _ => rfl) (fun _ _ => rfl) s
  | @handles msg hp hrunning b hb =>
    have hrefusal : [msg].filterMap (refusal cfg) = [] := by simp [refusal, hb]
    unfold RepliesKept
    rw [hsilent, hhandled, List.filterMap_append, hrefusal, List.append_nil]
    exact h
  | @refuses msg hp hrunning body hb =>
    have hrefusal : [msg].filterMap (refusal cfg) = [body] := by simp [refusal, hb]
    unfold RepliesKept
    cases hc : s.closed with
    | true =>
      -- on a closed connection no reply is sent
      rw [if_pos rfl, hsilent, hhandled, List.filterMap_append, hrefusal]
      exact ⟨h.1.trans (List.prefix_append _ _), fun he => by cases he⟩
    | false =>
      have hall := h.2 hc
      have hboth : (old ++ [SessionEffect.handled msg, .reply body]).filterMap messageHandled =
          old.filterMap messageHandled ++ [msg] := List.filterMap_append
      have hreplied : (old ++ [SessionEffect.handled msg, .reply body]).filterMap replied =
          old.filterMap replied ++ [body] := List.filterMap_append
      rw [if_neg Bool.false_ne_true, hreplied, hboth, List.filterMap_append, hrefusal, hall]
      exact ⟨List.prefix_rfl, fun _ => rfl⟩

/-- In reply mode the SELECT runs once for each message that binds, in their order; the last of them
may still be to run, or its run has thrown. Without a message nothing is handled. -/
def RunsKept (cfg : SessionConfig B) (es : List (SessionEffect B)) (s : SessionState B) : Prop :=
  if cfg.takesMessage then
    ∃ last, (es.filterMap messageHandled).filterMap (boundMessage cfg) =
        es.filterMap messageRun ++ last ∧ last.length ≤ 1 ∧
      (s.point = .executing → last = [s.message]) ∧
      (s.point.isOpen = true → s.point ≠ .executing → last = [])
  else
    es.filterMap messageHandled = [] ∧ s.message = none ∧ ∀ r ∈ es.filterMap messageRun, r = none

theorem runsKept_reply (htakes : cfg.takesMessage = true) :
    RunsKept cfg es s ↔
      ∃ last, (es.filterMap messageHandled).filterMap (boundMessage cfg) =
          es.filterMap messageRun ++ last ∧ last.length ≤ 1 ∧
        (s.point = .executing → last = [s.message]) ∧
        (s.point.isOpen = true → s.point ≠ .executing → last = []) := by
  rw [RunsKept, if_pos htakes]

theorem runsKept_push (htakes : ¬ cfg.takesMessage = true) :
    RunsKept cfg es s ↔
      es.filterMap messageHandled = [] ∧ s.message = none ∧
        ∀ r ∈ es.filterMap messageRun, r = none := by
  rw [RunsKept, if_neg htakes]

theorem RunsKept.unseen {old : List (SessionEffect B)} (h : RunsKept cfg old s)
    (hhandled : es.filterMap messageHandled = []) (hrun : es.filterMap messageRun = [])
    (hmessage : s'.message = s.message)
    (hexec : cfg.takesMessage = true → s'.point = .executing → s.point = .executing)
    (hopen : s'.point.isOpen = true → s'.point ≠ .executing →
      s.point.isOpen = true ∧ s.point ≠ .executing) : RunsKept cfg (old ++ es) s' := by
  have hhandled' : (old ++ es).filterMap messageHandled = old.filterMap messageHandled := by
    rw [List.filterMap_append, hhandled, List.append_nil]
  have hrun' : (old ++ es).filterMap messageRun = old.filterMap messageRun := by
    rw [List.filterMap_append, hrun, List.append_nil]
  by_cases htakes : cfg.takesMessage = true
  · rw [runsKept_reply htakes, hhandled', hrun', hmessage]
    obtain ⟨last, hlast, hlength, hpending, hnone⟩ := (runsKept_reply htakes).mp h
    refine ⟨last, hlast, hlength, fun he => hpending (hexec htakes he), fun ho hne => ?_⟩
    exact hnone (hopen ho hne).1 (hopen ho hne).2
  · rw [runsKept_push htakes, hhandled', hrun', hmessage]
    exact (runsKept_push htakes).mp h

theorem RunsKept.quiet {old : List (SessionEffect B)} (h : RunsKept cfg old s) (hq : Quiet s s' es)
    (hfits : s.point.Fits cfg.takesMessage) : RunsKept cfg (old ++ es) s' := by
  obtain ⟨fs, rfl⟩ := hq.controls
  refine h.unseen (filterMap_controls (fun _ => rfl) fs) (filterMap_controls (fun _ => rfl) fs)
    hq.kept.2.2 (fun htakes he => ?_) fun ho hne => ?_
  · -- only a session that pushes waits to run again
    rcases hq.point with heq | ⟨-, -, hwait, -⟩
    · rwa [← heq]
    · rw [hwait he, SessionPoint.Fits, htakes] at hfits
      cases hfits
  · rcases hq.point with heq | ⟨hs, -, -, hend⟩
    · exact ⟨by rwa [← heq], by rwa [← heq]⟩
    · refine ⟨hs, fun he => ?_⟩
      rw [hend he] at ho
      cases ho

theorem RunsKept.ran {old : List (SessionEffect B)} (h : RunsKept cfg old s) {fs : List Frame}
    (hp : s.point = .executing) (hes : es = .ran s.message :: fs.map .control)
    (hmessage : s'.message = s.message) (hpoint : s'.point ≠ .executing) :
    RunsKept cfg (old ++ es) s' := by
  subst hes
  have hhandled : (old ++ .ran s.message :: fs.map SessionEffect.control).filterMap messageHandled =
      old.filterMap messageHandled := by
    rw [List.filterMap_append, List.filterMap_cons_none rfl, filterMap_controls fun _ => rfl]
    exact List.append_nil _
  have hrun : (old ++ .ran s.message :: fs.map SessionEffect.control).filterMap messageRun =
      old.filterMap messageRun ++ [s.message] := by
    rw [List.filterMap_append, List.filterMap_cons_some (f := messageRun) (b := s.message) rfl,
      filterMap_controls fun _ => rfl]
  by_cases htakes : cfg.takesMessage = true
  · rw [runsKept_reply htakes, hhandled, hrun]
    obtain ⟨last, hlast, hlength, hpending, hnone⟩ := (runsKept_reply htakes).mp h
    refine ⟨[], ?_, by simp, fun he => absurd he hpoint, fun _ _ => rfl⟩
    rw [hlast, hpending hp, List.append_nil]
  · rw [runsKept_push htakes, hhandled, hrun, hmessage]
    obtain ⟨hnone, hmsg, hall⟩ := (runsKept_push htakes).mp h
    refine ⟨hnone, hmsg, fun r hr => ?_⟩
    rcases List.mem_append.mp hr with hr | hr
    · exact hall r hr
    · rwa [List.mem_singleton.mp hr]

theorem RunsKept.step {old : List (SessionEffect B)} (h : RunsKept cfg old s)
    (hfits : s.point.Fits cfg.takesMessage) (hstep : SessionSteps cfg s a s' es) :
    RunsKept cfg (old ++ es) s' := by
  cases hstep with
  | idle => exact h.unseen rfl rfl rfl (fun _ => id) fun ho hne => ⟨ho, hne⟩
  | stopped => exact h.unseen rfl rfl rfl (fun _ => id) fun ho hne => ⟨ho, hne⟩
  | pinged hopen sent => exact h.quiet (quiet_pinged hopen sent) hfits
  | moved hfrom hto hfits' => exact h.quiet (quiet_moved hfrom hto) hfits
  | reads hp ha => exact h.quiet (quiet_receiveStep hp _) hfits
  | closes hp status reason => exact h.quiet (quiet_closeSession hp status reason) hfits
  | sends hp hopen hroom =>
    exact h.unseen rfl rfl rfl (fun _ => id) fun ho hne => ⟨ho, hne⟩
  | loses hp hopen hroom =>
    refine h.unseen rfl rfl rfl (fun _ he => ?_) fun ho => ?_
    · cases he
    · cases ho
  | runs hp names =>
    have hfs : [SessionEffect.ran s.message] = .ran s.message :: ([] : List Frame).map .control := rfl
    refine h.ran hp hfs rfl ?_
    intro he
    cases he
  | fails hp reason =>
    refine h.ran hp (congrArg _ (closeSession_effects _ _ _)) rfl ?_
    intro he
    cases he
  | finishes hp =>
    have hgone : ¬ (finishSession s).1.point.isOpen = true := Bool.false_ne_true
    refine h.unseen ?_ ?_ rfl (fun _ he => ?_) fun ho => absurd ho hgone
    · exact filterMap_finishSession (fun _ => rfl) (fun _ _ => rfl) s
    · exact filterMap_finishSession (fun _ => rfl) (fun _ _ => rfl) s
    · cases he
  | @refuses msg hp hrunning body hb =>
    rw [hp] at hfits
    have hbound : [msg].filterMap (boundMessage cfg) = [] := by simp [boundMessage, hb]
    have hnew : ∀ (closed : Bool) (new : List (SessionEffect B)),
        new = (.handled msg :: if closed then [] else [.reply body]) →
        new.filterMap messageHandled = [msg] ∧ new.filterMap messageRun = [] := by
      rintro closed new rfl
      cases closed <;> exact ⟨rfl, rfl⟩
    obtain ⟨hhandled, hrun⟩ := hnew s.closed _ rfl
    -- what bound before has run, since no run is about to begin
    obtain ⟨last, hlast, hlength, -, hnone⟩ := (runsKept_reply hfits).mp h
    have hpending : last = [] := by
      apply hnone <;> rw [hp]
      · rfl
      · simp
    refine (runsKept_reply hfits).mpr ⟨[], ?_, by simp, fun he => ?_, fun _ _ => rfl⟩
    · simp only [List.filterMap_append, hhandled, hrun, hbound, hlast, hpending]
    · cases he
  | @handles msg hp hrunning b hb =>
    rw [hp] at hfits
    have hbound : [msg].filterMap (boundMessage cfg) = [some b] := by simp [boundMessage, hb]
    have hhandled : [SessionEffect.handled (B := B) msg].filterMap messageHandled = [msg] := rfl
    have hrun : [SessionEffect.handled (B := B) msg].filterMap messageRun = [] := rfl
    obtain ⟨last, hlast, hlength, -, hnone⟩ := (runsKept_reply hfits).mp h
    have hpending : last = [] := by
      apply hnone <;> rw [hp]
      · rfl
      · simp
    refine (runsKept_reply hfits).mpr ⟨[some b], ?_, by simp, fun _ => rfl, fun _ hne => ?_⟩
    · simp only [List.filterMap_append, hhandled, hrun, hbound, hlast, hpending, List.append_nil]
    · exact absurd rfl hne

/-- One row when the session has ended, with what was counted. -/
def LogKept (es : List (SessionEffect B)) (s : SessionState B) : Prop :=
  es.filterMap logRow = (if s.point = .ended then [(s.bytesSent, s.rowsSent)] else []) ∧
    (s.point = .ended → s.closed = true)

theorem LogKept.unseen {old : List (SessionEffect B)} (h : LogKept old s)
    (hlog : es.filterMap logRow = [])
    (hsame : s'.point = s.point ∧ s'.bytesSent = s.bytesSent ∧ s'.rowsSent = s.rowsSent ∧
        (s.closed = true → s'.closed = true) ∨ s.point ≠ .ended ∧ s'.point ≠ .ended) :
    LogKept (old ++ es) s' := by
  unfold LogKept
  rw [List.filterMap_append, hlog, List.append_nil, h.1]
  rcases hsame with ⟨hpoint, hbytes, hrows, hclosed⟩ | ⟨hs, hs'⟩
  · rw [hpoint, hbytes, hrows]
    exact ⟨rfl, fun he => hclosed (h.2 he)⟩
  · rw [if_neg hs, if_neg hs']
    exact ⟨rfl, fun he => absurd he hs'⟩

theorem LogKept.quiet {old : List (SessionEffect B)} (h : LogKept old s) (hq : Quiet s s' es) :
    LogKept (old ++ es) s' := by
  obtain ⟨fs, rfl⟩ := hq.controls
  refine h.unseen (filterMap_controls (fun _ => rfl) fs) ?_
  rcases hq.point with heq | ⟨hs, hended, -⟩
  · exact .inl ⟨heq, hq.kept.1, hq.kept.2.1, hq.closed⟩
  · refine .inr ⟨fun he => ?_, hended⟩
    rw [he] at hs
    cases hs

theorem LogKept.step {old : List (SessionEffect B)} (h : LogKept old s)
    (hstep : SessionSteps cfg s a s' es) : LogKept (old ++ es) s' := by
  cases hstep with
  | idle => exact h.unseen rfl (.inl ⟨rfl, rfl, rfl, id⟩)
  | stopped => exact h.unseen rfl (.inl ⟨rfl, rfl, rfl, id⟩)
  | pinged hopen sent => exact h.quiet (quiet_pinged hopen sent)
  | moved hfrom hto hfits' => exact h.quiet (quiet_moved hfrom hto)
  | reads hp ha => exact h.quiet (quiet_receiveStep hp _)
  | closes hp status reason => exact h.quiet (quiet_closeSession hp status reason)
  | sends hp hopen hroom => exact h.unseen rfl (.inr ⟨by simp [hp], by simp [hp]⟩)
  | loses hp hopen hroom => exact h.unseen rfl (.inr ⟨by simp [hp], by simp⟩)
  | runs hp names => exact h.unseen rfl (.inr ⟨by simp [hp], by simp⟩)
  | handles hp hrunning hb => exact h.unseen rfl (.inr ⟨by simp [hp], by simp⟩)
  | refuses hp hrunning hb =>
    refine h.unseen ?_ (.inr ⟨by simp [hp], by simp⟩)
    cases s.closed <;> rfl
  | fails hp reason =>
    rw [closeSession_effects]
    refine h.unseen ?_ (.inr ⟨by simp [hp], by simp [closeSession]⟩)
    exact filterMap_controls (fun _ => rfl) _
  | finishes hp =>
    have hold := h.1
    rw [if_neg (by simp [hp])] at hold
    unfold finishSession LogKept
    dsimp only
    rw [closeSession_effects, List.filterMap_append, List.filterMap_append, hold,
      filterMap_controls fun _ => rfl, if_pos rfl]
    exact ⟨rfl, fun _ => rfl⟩

/-- What a step sends: while the connection is open anything but a Close, or the Close that closes it;
then only the answers to pings. -/
inductive WireMove (s s' : SessionState B) (es : List (SessionEffect B)) : Prop
  | sends (hopen : s.closed = false) (hframes : ∀ f ∈ framesSent es, f.opcode ≠ .close)
  | closes (hopen : s.closed = false) (hclosed : s'.closed = true) {f : Frame}
      (hframes : framesSent es = [f]) (hf : f.opcode = .close)
  | answers (hclosed : s.closed = true) (hstays : s'.closed = true)
      (hframes : ∀ f ∈ framesSent es, f.opcode = .pong)

theorem WireMove.silent (hes : framesSent es = []) (hclosed : s.closed = true → s'.closed = true) :
    WireMove s s' es := by
  cases hc : s.closed with
  | false => exact .sends hc (by simp [hes])
  | true => exact .answers hc (hclosed hc) (by simp [hes])

theorem framesSent_controls (fs : List Frame) : framesSent (fs.map (SessionEffect.control (B := B))) = fs := by
  rw [framesSent, List.filterMap_map]
  exact List.filterMap_some

theorem text_ne_close (data : Bytes) : (textFrame data).opcode ≠ .close := by
  show Opcode.text ≠ Opcode.close
  decide

theorem wireMove_control {fs : List Frame} (hes : framesSent es = fs)
    (hclosed : s.closed = true → s'.closed = true ∧ ∀ f ∈ fs, f.opcode = .pong)
    (hopen : s.closed = false → (∀ f ∈ fs, f.opcode ≠ .close) ∨
      s'.closed = true ∧ ∃ f, fs = [f] ∧ f.opcode = .close) : WireMove s s' es := by
  cases hc : s.closed with
  | true =>
    obtain ⟨hstays, hpongs⟩ := hclosed hc
    exact .answers hc hstays (by rwa [hes])
  | false =>
    rcases hopen hc with hfs | ⟨hs', f, hf, hclose⟩
    · exact .sends hc (by rwa [hes])
    · exact .closes hc hs' (hes.trans hf) hclose

theorem wireMove_closeSession (status : CloseStatus) (reason : Bytes)
    (hes : framesSent es = if s.closed then [] else [closeFrame status reason])
    (hs' : s'.closed = true) : WireMove s s' es := by
  refine wireMove_control hes (fun hc => ⟨hs', by simp [hc]⟩) fun hc => .inr ⟨hs', ?_⟩
  exact ⟨closeFrame status reason, by simp [hc], rfl⟩

theorem pongFrame_opcode (payload : Bytes) : (pongFrame payload).opcode = .pong := rfl

theorem wrote_cases (closed : Bool) (point : ReadPoint) (a : Arrival) :
    ((readStep closed point a).wrote = [] ∨
        ∃ f, (readStep closed point a).wrote = [f] ∧ f.opcode = .pong) ∨
      closed = false ∧ (readStep closed point a).closed = true ∧
        ∃ f, (readStep closed point a).wrote = [f] ∧ f.opcode = .close := by
  have hecho : ∀ payload, ((echoClose closed payload).wrote = [] ∨
      ∃ f, (echoClose closed payload).wrote = [f] ∧ f.opcode = .pong) ∨
        closed = false ∧ (echoClose closed payload).closed = true ∧
          ∃ f, (echoClose closed payload).wrote = [f] ∧ f.opcode = .close := by
    intro payload
    cases closed with
    | true => exact .inl (.inl rfl)
    | false => exact .inr ⟨rfl, rfl, _, rfl, rfl⟩
  have hdeliver : ∀ isText msg, ((deliver closed isText msg).wrote = [] ∨
      ∃ f, (deliver closed isText msg).wrote = [f] ∧ f.opcode = .pong) ∨
        closed = false ∧ (deliver closed isText msg).closed = true ∧
          ∃ f, (deliver closed isText msg).wrote = [f] ∧ f.opcode = .close := by
    intro isText msg
    unfold deliver
    cases closed <;> split
    · exact .inr ⟨rfl, rfl, _, rfl, rfl⟩
    · exact .inl (.inl rfl)
    · exact .inl (.inl rfl)
    · exact .inl (.inl rfl)
  have hpong : ∀ payload, (∃ f, [pongFrame payload] = [f] ∧ f.opcode = .pong) := by
    intro payload
    exact ⟨_, rfl, pongFrame_opcode payload⟩
  cases point with
  | outer =>
    cases a with
    | quiet => exact .inl (.inl rfl)
    | broken => exact .inl (.inl rfl)
    | frame f =>
      simp only [readStep, readOuter]
      split_ifs <;> first
        | exact hecho _ | exact hdeliver _ _ | exact .inl (.inr (hpong _)) | exact .inl (.inl rfl)
  | inner isText msg =>
    cases a with
    | quiet => exact .inl (.inl rfl)
    | broken => exact .inl (.inl rfl)
    | frame f =>
      simp only [readStep, readInner]
      split_ifs <;> first
        | exact hecho _ | exact hdeliver _ _ | exact .inl (.inr (hpong _)) | exact .inl (.inl rfl)

theorem wireMove_receiveStep (point : ReadPoint) (a : Arrival) :
    WireMove s (receiveStep cfg s point a).1 (receiveStep cfg s point a).2 := by
  refine wireMove_control (framesSent_controls _) (fun hc => ?_) fun hc => ?_
  · refine ⟨?_, ?_⟩
    · show (readStep s.closed point a).closed = true
      rw [hc]
      exact readStep_closed point a
    · rcases wrote_cases s.closed point a with (hnone | ⟨f, hf, hpong⟩) | ⟨hopen, -⟩
      · simp [hnone]
      · simpa [hf] using hpong
      · rw [hc] at hopen
        cases hopen
  · rcases wrote_cases s.closed point a with (hnone | ⟨f, hf, hpong⟩) | ⟨-, hclosed, f, hf, hclose⟩
    · exact .inl (by simp [hnone])
    · refine .inl ?_
      rw [hf]
      simp only [List.mem_singleton, forall_eq, hpong]
      decide
    · exact .inr ⟨hclosed, f, hf, hclose⟩

theorem wireMove_step (hstep : SessionSteps cfg s a s' es) : WireMove s s' es := by
  cases hstep with
  | idle => exact .silent rfl id
  | stopped => exact .silent rfl id
  | moved => exact .silent rfl id
  | handles => exact .silent rfl id
  | runs => exact .silent rfl id
  | reads hp ha => exact wireMove_receiveStep _ _
  | pinged hopen sent =>
    refine .sends hopen fun f hf => ?_
    rw [List.mem_singleton.mp hf]
    show Opcode.ping ≠ Opcode.close
    decide
  | @refuses msg hp hrunning body hb =>
    cases hc : s.closed with
    | true => exact .silent rfl fun _ => rfl
    | false =>
      refine .sends hc fun f hf => ?_
      rw [List.mem_singleton.mp hf]
      exact text_ne_close body
  | fails hp reason =>
    refine wireMove_closeSession .internalError reason ?_ rfl
    rw [closeSession_effects, framesSent, List.filterMap_cons_none rfl]
    exact framesSent_controls _
  | closes hp status reason =>
    refine wireMove_closeSession status reason ?_ rfl
    rw [closeSession_effects]
    exact framesSent_controls _
  | sends hp hopen hroom =>
    refine .sends hopen fun f hf => ?_
    rw [List.mem_singleton.mp hf]
    exact text_ne_close _
  | loses hp hopen hroom =>
    refine .sends hopen fun f hf => ?_
    rw [List.mem_singleton.mp hf]
    exact text_ne_close _
  | finishes hp =>
    refine wireMove_closeSession (if s.isRunning then .normal else .goingAway) [] ?_ rfl
    unfold finishSession
    dsimp only
    rw [closeSession_effects, framesSent, List.filterMap_append]
    exact (List.append_nil _).trans (framesSent_controls _)

/-- At most one Close is sent, and after it only answers to pings. -/
def WireKept (es : List (SessionEffect B)) (s : SessionState B) : Prop :=
  ∃ (before : List Frame) (close : Option Frame) (after : List Frame),
    framesSent es = before ++ close.toList ++ after ∧ (∀ f ∈ before, f.opcode ≠ .close) ∧
      (∀ f ∈ close, f.opcode = .close) ∧ (∀ f ∈ after, f.opcode = .pong) ∧
      (s.closed = false → close = none ∧ after = [])

theorem WireKept.step {old : List (SessionEffect B)} (h : WireKept old s) (hmove : WireMove s s' es) :
    WireKept (old ++ es) s' := by
  obtain ⟨before, close, after, hold, hbefore, hclose, hafter, hnone⟩ := h
  have happend : framesSent (old ++ es) = before ++ close.toList ++ after ++ framesSent es := by
    rw [← hold]
    exact List.filterMap_append
  cases hmove with
  | sends hopen hframes =>
    obtain ⟨rfl, rfl⟩ := hnone hopen
    refine ⟨before ++ framesSent es, none, [], ?_, ?_, hclose, hafter, fun _ => ⟨rfl, rfl⟩⟩
    · rw [happend]
      simp
    · intro f hf
      rcases List.mem_append.mp hf with hf | hf
      · exact hbefore f hf
      · exact hframes f hf
  | @closes hopen hclosed f hframes hf =>
    obtain ⟨rfl, rfl⟩ := hnone hopen
    refine ⟨before, some f, [], ?_, hbefore, ?_, hafter, fun hc => ?_⟩
    · rw [happend, hframes]
      simp
    · intro g hg
      rwa [← Option.some.inj hg]
    · rw [hclosed] at hc
      cases hc
  | answers hclosed hstays hframes =>
    refine ⟨before, close, after ++ framesSent es, ?_, hbefore, hclose, ?_, fun hc => ?_⟩
    · rw [happend, List.append_assoc]
    · intro f hf
      rcases List.mem_append.mp hf with hf | hf
      · exact hafter f hf
      · exact hframes f hf
    · rw [hstays] at hc
      cases hc

structure SessionSafe (cfg : SessionConfig B) (es : List (SessionEffect B)) (s : SessionState B) :
    Prop where
  wire : WireKept es s
  rows : RowsKept cfg es s
  replies : RepliesKept cfg es s
  runs : RunsKept cfg es s
  log : LogKept es s
  fits : s.point.Fits cfg.takesMessage

theorem newSession_safe (cfg : SessionConfig B) : SessionSafe cfg [] (newSession cfg) where
  wire := ⟨[], none, [], rfl, by simp, by simp, by simp, fun _ => ⟨rfl, rfl⟩⟩
  rows := ⟨rfl, rfl, ⟨[], rfl, by simp, fun _ => rfl⟩, Nat.zero_le _⟩
  replies := ⟨List.prefix_rfl, fun _ => rfl⟩
  runs := by
    cases htakes : cfg.takesMessage with
    | true =>
      refine (runsKept_reply htakes).mpr ⟨[], rfl, by simp, fun he => ?_, fun _ _ => rfl⟩
      simp [newSession, htakes] at he
    | false => exact (runsKept_push (by simp [htakes])).mpr ⟨rfl, rfl, by simp⟩
  log := by
    unfold LogKept newSession
    cases cfg.takesMessage <;> simp
  fits := by
    cases htakes : cfg.takesMessage <;> simp [newSession, htakes, SessionPoint.Fits]

theorem session_safe (cfg : SessionConfig B) (as : List SessionAction) :
    SessionSafe cfg ((sessionMachine cfg).emitted (newSession cfg) as)
      ((sessionMachine cfg).run (newSession cfg) as) := by
  apply (sessionMachine cfg).emitted_invariant (I := SessionSafe cfg)
  · exact newSession_safe cfg
  · intro es s a hs
    have hstep := sessionStep_steps cfg s a
    exact ⟨hs.wire.step (wireMove_step hstep), hs.rows.step hstep, hs.replies.step hstep,
      hs.runs.step hs.fits hstep, hs.log.step hstep, fits_step hs.fits hstep⟩

def pendingRuns (s : SessionState B) : Nat := if s.point = .executing then 1 else 0

theorem pendingRuns_le (s : SessionState B) : pendingRuns s ≤ 1 := by
  unfold pendingRuns
  split <;> simp

theorem pendingRuns_unseen (hes : es.filterMap messageRun = [])
    (hexec : s'.point = .executing → s.point = .executing) :
    (es.filterMap messageRun).length + pendingRuns s' ≤ pendingRuns s := by
  rw [hes, List.length_nil, Nat.zero_add, pendingRuns, pendingRuns]
  by_cases hp : s'.point = .executing
  · rw [if_pos hp, if_pos (hexec hp)]
  · rw [if_neg hp]
    exact Nat.zero_le _

theorem pendingRuns_quiet (hq : Quiet s s' es) (hexec : s'.point = .executing → s.point = .executing) :
    es.filterMap messageHandled = [] ∧
      (es.filterMap messageRun).length + pendingRuns s' ≤ pendingRuns s := by
  obtain ⟨fs, rfl⟩ := hq.controls
  refine ⟨filterMap_controls (fun _ => rfl) fs, pendingRuns_unseen ?_ hexec⟩
  exact filterMap_controls (fun _ => rfl) fs

theorem stopped_step (hstep : SessionSteps cfg s a s' es) (hstopped : s.isRunning = false) :
    s'.isRunning = false ∧ es.filterMap messageHandled = [] ∧
      (es.filterMap messageRun).length + pendingRuns s' ≤ pendingRuns s := by
  cases hstep with
  | idle => exact ⟨hstopped, rfl, pendingRuns_unseen rfl id⟩
  | stopped => exact ⟨rfl, rfl, pendingRuns_unseen rfl id⟩
  | pinged hopen sent => exact ⟨hstopped, pendingRuns_quiet (quiet_pinged hopen sent) id⟩
  | moved hfrom hto hfits =>
    refine ⟨hstopped, pendingRuns_quiet (quiet_moved hfrom hto) fun hp => ?_⟩
    rw [hstopped] at hto
    cases (hto.2 hp).1
  | reads hp ha =>
    refine ⟨hstopped, pendingRuns_quiet (quiet_receiveStep hp _) fun he => ?_⟩
    exact absurd he (nextPoint_cases cfg _).2.1
  | closes hp status reason =>
    refine ⟨hstopped, pendingRuns_quiet (quiet_closeSession hp status reason) fun he => ?_⟩
    cases he
  | handles hp hrunning hb =>
    rw [hstopped] at hrunning
    cases hrunning
  | refuses hp hrunning hb =>
    rw [hstopped] at hrunning
    cases hrunning
  | runs hp names => exact ⟨hstopped, rfl, by simp [pendingRuns, hp, messageRun]⟩
  | fails hp reason =>
    rw [closeSession_effects]
    refine ⟨hstopped, filterMap_controls (fun _ => rfl) _, ?_⟩
    rw [List.filterMap_cons_some (f := messageRun) (b := s.message) rfl,
      filterMap_controls fun _ => rfl, pendingRuns, pendingRuns, if_pos hp]
    simp [closeSession]
  | sends hp hopen hroom => exact ⟨hstopped, rfl, pendingRuns_unseen rfl id⟩
  | loses hp hopen hroom =>
    refine ⟨hstopped, rfl, pendingRuns_unseen rfl fun he => ?_⟩
    cases he
  | finishes hp =>
    refine ⟨hstopped, ?_, pendingRuns_unseen ?_ fun he => ?_⟩
    · exact filterMap_finishSession (fun _ => rfl) (fun _ _ => rfl) s
    · exact filterMap_finishSession (fun _ => rfl) (fun _ _ => rfl) s
    · cases he

theorem stopped_run (hstopped : s.isRunning = false) (as : List SessionAction) :
    ((sessionMachine cfg).emitted s as).filterMap messageHandled = [] ∧
      (((sessionMachine cfg).emitted s as).filterMap messageRun).length ≤ pendingRuns s := by
  induction as generalizing s with
  | nil => exact ⟨rfl, Nat.zero_le _⟩
  | cons a as ih =>
    obtain ⟨hstays, hhandled, hruns⟩ := stopped_step (sessionStep_steps cfg s a) hstopped
    obtain ⟨hrest, hle⟩ := ih hstays
    have hemitted : (sessionMachine cfg).emitted s (a :: as) =
        (sessionStep cfg s a).2 ++ (sessionMachine cfg).emitted (sessionStep cfg s a).1 as :=
      Machine.emitted_cons _ _ _ _
    rw [hemitted, List.filterMap_append, List.filterMap_append, List.length_append]
    refine ⟨?_, by omega⟩
    rw [hhandled, List.nil_append]
    exact hrest

/-- A stopped server handles no message, and starts no run but one that was about to begin. -/
theorem session_stopped (cfg : SessionConfig B) (pre post : List SessionAction) :
    let s := (sessionMachine cfg).run (newSession cfg) (pre ++ [.stop])
    ((sessionMachine cfg).emitted s post).filterMap messageHandled = [] ∧
      (((sessionMachine cfg).emitted s post).filterMap messageRun).length ≤ 1 := by
  intro s
  have hstopped : s.isRunning = false := by
    show ((sessionMachine cfg).run (newSession cfg) (pre ++ [.stop])).isRunning = false
    rw [Machine.run_concat]
    rfl
  obtain ⟨hhandled, hruns⟩ := stopped_run hstopped post
  exact ⟨hhandled, le_trans hruns (pendingRuns_le s)⟩

end
end Quackapi.WebSocket
