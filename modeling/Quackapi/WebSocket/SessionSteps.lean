import Quackapi.WebSocket.Session

/-! The steps of a session, each with what it needs and leaves, and the reason of its Close. -/

namespace Quackapi.WebSocket
open Library

theorem characterStart_le (message : Bytes) (n : Nat) : characterStart message n ≤ n := by
  induction n with
  | zero => exact le_rfl
  | succ n ih =>
    rw [characterStart]
    split
    · exact Nat.le_succ_of_le ih
    · exact le_rfl

theorem isTail_of_characterStart_lt {message : Bytes} {n k : Nat} (hlt : characterStart message n < k)
    (hle : k ≤ n) : (message[k]?).any isTail = true := by
  induction n with
  | zero =>
    have hzero := characterStart_le message 0
    omega
  | succ n ih =>
    rw [characterStart] at hlt
    split at hlt
    · next htail =>
      rcases Nat.lt_or_eq_of_le hle with hk | rfl
      · exact ih hlt (by omega)
      · exact htail
    · omega

theorem not_isTail_characterStart (message : Bytes) (n : Nat) (hpos : characterStart message n ≠ 0) :
    (message[characterStart message n]?).any isTail = false := by
  induction n with
  | zero => exact absurd rfl hpos
  | succ n ih =>
    rw [characterStart] at hpos ⊢
    split
    · next htail =>
      rw [if_pos htail] at hpos
      exact ih hpos
    · next htail => simpa using htail

theorem isValidUtf8_take {message : Bytes} (h : isValidUtf8 message = true) (n : Nat) :
    isValidUtf8 (message.take n) = true ↔ (message[n]?).any isTail = false := by
  rw [isValidUtf8_eq_isUtf8] at h ⊢
  rw [textOf, List.map_take]
  change isUtf8 ((textOf message).take n) = true ↔ _
  rw [isUtf8_take h n, textOf, List.getElem?_map]
  cases message[n]? with
  | none => simp
  | some b => simp [isTail_eq]

/-- The reason of a Close is the longest beginning of the error that fits and is still a text. -/
theorem webSocketCloseReason_longest {message : Bytes} (h : isValidUtf8 message = true) (n : Nat) :
    isValidUtf8 (webSocketCloseReason message) = true ∧
      webSocketCloseReason message <+: message ∧ (webSocketCloseReason message).length ≤ 123 ∧
      (n ≤ 123 → isValidUtf8 (message.take n) = true →
        message.take n <+: webSocketCloseReason message) := by
  have hle := characterStart_le message (min message.length 123)
  refine ⟨?_, List.take_prefix _ _, ?_, fun hn hvalid => ?_⟩
  · rw [webSocketCloseReason]
    by_cases hzero : characterStart message (min message.length 123) = 0
    · rw [hzero]
      rfl
    · exact (isValidUtf8_take h _).mpr (not_isTail_characterStart message _ hzero)
  · rw [webSocketCloseReason, List.length_take]
    omega
  · rw [webSocketCloseReason]
    rcases Nat.lt_or_ge (characterStart message (min message.length 123)) (min message.length n)
      with hlt | hge
    · have htail := isTail_of_characterStart_lt hlt (by omega)
      rcases Nat.lt_or_ge n message.length with hshort | hlong
      · rw [Nat.min_eq_right (Nat.le_of_lt hshort), (isValidUtf8_take h n).mp hvalid] at htail
        cases htail
      · rw [Nat.min_eq_left hlong, List.getElem?_eq_none le_rfl] at htail
        cases htail
    · rw [List.take_eq_take_min (i := n)]
      exact List.take_prefix_take_left (by omega)

/-- Sixty-two letters of two bytes each are one byte more than fits. -/
theorem webSocketCloseReason_longest_accents :
    let message := (List.replicate 62 [(0xC3 : UInt8), 0xA9]).flatten
    isValidUtf8 (webSocketCloseReason message) = true ∧
      message.take 122 <+: webSocketCloseReason message := by
  intro message
  have hvalid : isValidUtf8 message = true := by decide +kernel
  have h := webSocketCloseReason_longest hvalid 122
  exact ⟨h.1, h.2.2.2 (by simp) (by decide +kernel)⟩

section
variable {B : Type} {cfg : SessionConfig B} {s s' : SessionState B} {a : SessionAction}
  {es : List (SessionEffect B)}

/-- The places that only one of the two modes has. -/
def SessionPoint.Fits (takesMessage : Bool) : SessionPoint → Prop
  | .listening | .received _ => takesMessage = true
  | .pushed | .waiting => takesMessage = false
  | _ => True

def SessionPoint.isOpen : SessionPoint → Bool
  | .ending | .ended => false
  | _ => true

/-- Every step of a session, with what it needs and what it leaves. -/
inductive SessionSteps (cfg : SessionConfig B) (s : SessionState B) (a : SessionAction) :
    SessionState B → List (SessionEffect B) → Prop
  | idle : SessionSteps cfg s a s []
  | stopped : SessionSteps cfg s a { s with isRunning := false } []
  | pinged (hopen : s.closed = false) (sent : Bool) :
      SessionSteps cfg s a { s with closed := !sent } [.control pingFrame]
  | moved {p : SessionPoint} (hfrom : s.point.isOpen = true ∧ s.point ≠ .executing)
      (hto : p ≠ .ended ∧ (p = .executing → s.isRunning = true ∧ s.point = .waiting))
      (hfits : s.point.Fits cfg.takesMessage → p.Fits cfg.takesMessage) :
      SessionSteps cfg s a { s with point := p } []
  | reads {point : ReadPoint} (h : s.point = .reading point) {arrival : Arrival}
      (ha : a = .receive arrival) :
      SessionSteps cfg s a (receiveStep cfg s point arrival).1 (receiveStep cfg s point arrival).2
  | handles {msg : Bytes} (h : s.point = .received msg) (hrunning : s.isRunning = true) {b : B}
      (hb : cfg.bindMessage msg = .ok b) :
      SessionSteps cfg s a { s with point := .executing, message := some b } [.handled msg]
  | refuses {msg : Bytes} (h : s.point = .received msg) (hrunning : s.isRunning = true)
      {body : Bytes} (hb : cfg.bindMessage msg = .error body) :
      SessionSteps cfg s a { s with point := .listening }
        (.handled msg :: if s.closed then [] else [.reply body])
  | runs (h : s.point = .executing) (names : List Str) :
      SessionSteps cfg s a { s with point := .sending names } [.ran s.message]
  | fails (h : s.point = .executing) (reason : Bytes) :
      SessionSteps cfg s a (closeSession s .internalError reason).1
        (.ran s.message :: (closeSession s .internalError reason).2)
  | closes (h : s.point.isOpen = true) (status : CloseStatus) (reason : Bytes) :
      SessionSteps cfg s a (closeSession s status reason).1 (closeSession s status reason).2
  | sends {names : List Str} (h : s.point = .sending names) (hopen : s.closed = false) {data : Bytes}
      (hroom : s.bytesSent + data.length ≤ cfg.maxResponseBytes) :
      SessionSteps cfg s a
        { s with bytesSent := s.bytesSent + data.length, rowsSent := s.rowsSent + 1 }
        [.row data true]
  | loses {names : List Str} (h : s.point = .sending names) (hopen : s.closed = false) {data : Bytes}
      (hroom : s.bytesSent + data.length ≤ cfg.maxResponseBytes) :
      SessionSteps cfg s a { s with point := .ending } [.row data false]
  | finishes (h : s.point = .ending) :
      SessionSteps cfg s a (finishSession s).1 (finishSession s).2

theorem nextStep_steps : SessionSteps cfg s a (nextStep cfg s).1 (nextStep cfg s).2 := by
  unfold nextStep
  have hmoved : ∀ p, s.point.isOpen = true ∧ s.point ≠ .executing →
      p ≠ .ended ∧ (p = .executing → s.isRunning = true ∧ s.point = .waiting) →
      (s.point.Fits cfg.takesMessage → p.Fits cfg.takesMessage) →
      SessionSteps cfg s a { s with point := p } [] := fun p hfrom hto hfits => .moved hfrom hto hfits
  cases hp : s.point with
  | listening =>
    refine hmoved _ ?_ ?_ ?_ <;> rw [hp] <;> cases s.isRunning <;>
      simp [SessionPoint.isOpen, SessionPoint.Fits]
  | checking =>
    refine hmoved _ ?_ ?_ ?_ <;> rw [hp] <;> cases s.closed <;>
      simp [SessionPoint.isOpen, SessionPoint.Fits]
  | received msg =>
    dsimp only
    by_cases hrunning : s.isRunning = true
    · rw [if_pos hrunning, handleMessage]
      cases hb : cfg.bindMessage msg with
      | ok b => exact .handles hp hrunning hb
      | error body => exact .refuses hp hrunning hb
    · rw [if_neg hrunning]
      refine hmoved _ ?_ ?_ ?_ <;> rw [hp] <;> simp [SessionPoint.isOpen, SessionPoint.Fits]
  | pushed =>
    refine hmoved _ ?_ ?_ ?_ <;> rw [hp] <;>
      by_cases hnext : 0 < cfg.intervalMs ∧ s.isRunning = true <;>
      simp [SessionPoint.isOpen, SessionPoint.Fits, hnext]
  | ending => exact .finishes hp
  | _ => exact .idle

theorem sendRow_steps {names : List Str} (h : s.point = .sending names) (data : Bytes) (sent : Bool) :
    SessionSteps cfg s a (sendRow cfg s data sent).1 (sendRow cfg s data sent).2 := by
  have hgoes : s.point.isOpen = true := by rw [h]; rfl
  unfold sendRow
  by_cases hroom : cfg.maxResponseBytes < s.bytesSent + data.length
  · rw [if_pos hroom]
    exact .closes hgoes _ _
  · rw [if_neg hroom]
    have hroom' := Nat.not_lt.mp hroom
    by_cases hclosed : s.closed = true
    · rw [if_pos hclosed]
      refine .moved ⟨hgoes, ?_⟩ ?_ ?_ <;> simp [h, SessionPoint.Fits]
    · rw [if_neg hclosed]
      have hopen : s.closed = false := by simpa using hclosed
      cases sent with
      | true => exact .sends h hopen hroom'
      | false => exact .loses h hopen hroom'

theorem sessionStep_steps (cfg : SessionConfig B) (s : SessionState B) (a : SessionAction) :
    SessionSteps cfg s a (sessionStep cfg s a).1 (sessionStep cfg s a).2 := by
  cases a with
  | next => exact nextStep_steps
  | receive a =>
    unfold sessionStep
    dsimp only
    split
    · next point hp => exact .reads hp rfl
    · exact .idle
  | execute result =>
    unfold sessionStep
    dsimp only
    by_cases hp : s.point = .executing
    · rw [if_pos hp]
      cases result with
      | error what => exact .fails hp _
      | ok names => exact .runs hp names
    · rw [if_neg hp]
      exact .idle
  | row cols sent =>
    unfold sessionStep
    dsimp only
    split
    · next names hp => exact sendRow_steps hp _ sent
    · exact .idle
  | rowsEnd =>
    unfold sessionStep
    dsimp only
    split
    · next names hp =>
      refine .moved ?_ ?_ ?_ <;> rw [hp] <;> cases htakes : cfg.takesMessage <;>
        simp [SessionPoint.isOpen, SessionPoint.Fits]
    · exact .idle
  | throws what =>
    unfold sessionStep
    dsimp only
    split
    · exact .idle
    · exact .idle
    · next hending hended =>
      refine .closes ?_ _ _
      cases hp : s.point with
      | ending => exact absurd hp hending
      | ended => exact absurd hp hended
      | _ => rfl
  | clock due =>
    unfold sessionStep
    dsimp only
    split
    · next hp =>
      unfold clockStep
      refine .moved ?_ ?_ ?_ <;> rw [hp] <;> cases hrunning : s.isRunning <;> cases due <;>
        simp [SessionPoint.isOpen, SessionPoint.Fits]
    · exact .idle
  | ping sent =>
    unfold sessionStep
    dsimp only
    by_cases hclosed : s.closed = true
    · rw [if_pos hclosed]
      exact .idle
    · rw [if_neg hclosed]
      exact .pinged (by simpa using hclosed) sent
  | stop => exact .stopped

namespace SessionEffect

def rowHanded : SessionEffect B → Option Bytes
  | .row data _ => some data
  | _ => none

def rowCounted : SessionEffect B → Option Bytes
  | .row data true => some data
  | _ => none

def replied : SessionEffect B → Option Bytes
  | .reply data => some data
  | _ => none

def messageHandled : SessionEffect B → Option Bytes
  | .handled msg => some msg
  | _ => none

def messageRun : SessionEffect B → Option (Option B)
  | .ran message => some message
  | _ => none

def logRow : SessionEffect B → Option (Nat × Nat)
  | .logged bytes rows => some (bytes, rows)
  | _ => none

end SessionEffect
open SessionEffect

def boundMessage (cfg : SessionConfig B) (msg : Bytes) : Option (Option B) :=
  match cfg.bindMessage msg with
  | .ok b => some (some b)
  | .error _ => none

def refusal (cfg : SessionConfig B) (msg : Bytes) : Option Bytes :=
  match cfg.bindMessage msg with
  | .ok _ => none
  | .error body => some body

/-- A step that no row, message or log has a part in. -/
structure Quiet (s s' : SessionState B) (es : List (SessionEffect B)) : Prop where
  controls : ∃ fs : List Frame, es = fs.map SessionEffect.control
  kept : s'.bytesSent = s.bytesSent ∧ s'.rowsSent = s.rowsSent ∧ s'.message = s.message
  closed : s.closed = true → s'.closed = true
  point : s'.point = s.point ∨ s.point.isOpen = true ∧ s'.point ≠ .ended ∧
    (s'.point = .executing → s.point = .waiting) ∧ (s.point = .executing → s'.point = .ending)

theorem filterMap_controls {γ : Type} {f : SessionEffect B → Option γ}
    (hf : ∀ frame, f (.control frame) = none) (fs : List Frame) :
    (fs.map SessionEffect.control).filterMap f = [] := by
  rw [List.filterMap_map, List.filterMap_eq_nil_iff]
  intro frame _
  exact hf frame

theorem closeSession_effects (s : SessionState B) (status : CloseStatus) (reason : Bytes) :
    (closeSession s status reason).2 =
      (if s.closed then [] else [closeFrame status reason]).map SessionEffect.control := by
  unfold closeSession
  cases s.closed <;> rfl

theorem filterMap_finishSession {γ : Type} {f : SessionEffect B → Option γ}
    (hf : ∀ frame, f (.control frame) = none) (hlogged : ∀ bytes rows, f (.logged bytes rows) = none)
    (s : SessionState B) : (finishSession s).2.filterMap f = [] := by
  unfold finishSession
  dsimp only
  rw [closeSession_effects, List.filterMap_append, filterMap_controls hf, List.nil_append]
  exact List.filterMap_cons_none (hlogged _ _)

theorem readStep_closed (point : ReadPoint) (a : Arrival) : (readStep true point a).closed = true := by
  have hdeliver : ∀ isText msg, (deliver true isText msg).closed = true := by
    intro isText msg
    unfold deliver
    split <;> rfl
  cases point with
  | outer =>
    cases a with
    | quiet => rfl
    | broken => rfl
    | frame f =>
      show (readOuter true f).closed = true
      unfold readOuter
      split_ifs <;> first | rfl | exact hdeliver _ _
  | inner isText msg =>
    cases a with
    | quiet => rfl
    | broken => rfl
    | frame f =>
      show (readInner true isText msg f).closed = true
      unfold readInner
      split_ifs <;> first | rfl | exact hdeliver _ _

theorem nextPoint_cases (cfg : SessionConfig B) (r : Reads) :
    nextPoint cfg r ≠ .ended ∧ nextPoint cfg r ≠ .executing ∧
      (nextPoint cfg r).Fits cfg.takesMessage := by
  cases r with
  | waits point => cases point <;> simp [nextPoint, SessionPoint.Fits]
  | returns result =>
    cases result <;> cases htakes : cfg.takesMessage <;>
      simp [nextPoint, afterRead, htakes, SessionPoint.Fits]

theorem quiet_receiveStep {point : ReadPoint} (h : s.point = .reading point) (a : Arrival) :
    Quiet s (receiveStep cfg s point a).1 (receiveStep cfg s point a).2 := by
  obtain ⟨hended, hexec, -⟩ := nextPoint_cases cfg (readStep s.closed point a).reads
  refine ⟨⟨_, rfl⟩, ⟨rfl, rfl, rfl⟩, fun hclosed => ?_, .inr ⟨?_, hended, ?_, ?_⟩⟩
  · show (readStep s.closed point a).closed = true
    rw [hclosed]
    exact readStep_closed point a
  · rw [h]
    rfl
  · exact fun he => absurd he hexec
  · rw [h]
    intro he
    cases he

theorem quiet_closeSession (h : s.point.isOpen = true) (status : CloseStatus) (reason : Bytes) :
    Quiet s (closeSession s status reason).1 (closeSession s status reason).2 := by
  refine ⟨⟨_, closeSession_effects s status reason⟩, ⟨rfl, rfl, rfl⟩, fun _ => rfl,
    .inr ⟨h, ?_, ?_, ?_⟩⟩
  · intro he
    cases he
  · intro he
    cases he
  · exact fun _ => rfl

theorem quiet_moved {p : SessionPoint} (hfrom : s.point.isOpen = true ∧ s.point ≠ .executing)
    (hto : p ≠ .ended ∧ (p = .executing → s.isRunning = true ∧ s.point = .waiting)) :
    Quiet s { s with point := p } [] := by
  refine ⟨⟨[], rfl⟩, ⟨rfl, rfl, rfl⟩, fun h => h,
    .inr ⟨hfrom.1, hto.1, fun he => (hto.2 he).2, ?_⟩⟩
  exact fun he => absurd he hfrom.2

theorem quiet_pinged (hopen : s.closed = false) (sent : Bool) :
    Quiet s { s with closed := !sent } [.control pingFrame] := by
  refine ⟨⟨[pingFrame], rfl⟩, ⟨rfl, rfl, rfl⟩, fun hclosed => ?_, .inl rfl⟩
  rw [hopen] at hclosed
  cases hclosed

end
end Quackapi.WebSocket
