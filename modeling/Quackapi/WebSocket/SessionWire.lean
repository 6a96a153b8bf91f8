import Quackapi.WebSocket.SessionSafety

/-! A session down to its bytes: the client that reads what is written gets the frames that were
handed to the stream, each of them and no other, up to the first that a write has cut short. -/

namespace Quackapi.WebSocket
open Library

/-- Frame after frame, as the reader takes them off. -/
inductive FramesRead (expectMasked : Bool) (maxLen : Nat) : Stream → List Frame → Stream → Prop
  | done {strm : Stream} : FramesRead expectMasked maxLen strm [] strm
  | next {strm rest last : Stream} {f : Frame} {fs : List Frame}
      (h : readWebsocketFrame expectMasked maxLen strm = some (f, rest))
      (hrest : FramesRead expectMasked maxLen rest fs last) :
      FramesRead expectMasked maxLen strm (f :: fs) last

/-- The texts that are handed to the socket for a frame, one write each. -/
def frameWrites (f : Frame) : List Bytes :=
  let lengths := lengthBytes false f.payload.length
  [firstByte f.fin f.opcode :: lengths.take 1, lengths.drop 1, f.payload].filter fun text => !text.isEmpty

theorem flatten_frameWrites (f : Frame) : (frameWrites f).flatten = writeWebsocketFrame none f := by
  have hall : ∀ texts : List Bytes, (texts.filter fun text => !text.isEmpty).flatten = texts.flatten := by
    intro texts
    induction texts with
    | nil => rfl
    | cons text texts ih => cases text <;> simp [ih]
  have hsplit := List.take_append_drop 1 (lengthBytes false f.payload.length)
  rw [frameWrites, hall, writeWebsocketFrame]
  conv_rhs => rw [Option.isSome_none, ← hsplit]
  simp [maskedPayload]

/-- Of some write only a beginning is there, or nothing: it failed, or it was short and nobody asked. -/
def CutShort (f : Frame) (bytes : Bytes) : Prop :=
  ∃ taken, List.Forall₂ (· <+: ·) taken (frameWrites f) ∧ taken ≠ frameWrites f ∧
    bytes = taken.flatten

def maxFrameLength : Nat := 2 ^ 63 - 1

theorem sendable_control {f : Frame} (hfin : f.fin = true) (hlen : f.payload.length ≤ 125) :
    Sendable maxFrameLength f := by
  have hmax : maxFrameLength = 2 ^ 63 - 1 := rfl
  exact ⟨by omega, by omega, fun _ => ⟨hfin, hlen⟩⟩

theorem sendable_text {data : Bytes} (h : data.length < 2 ^ 63) :
    Sendable maxFrameLength (textFrame data) := by
  have hmax : maxFrameLength = 2 ^ 63 - 1 := rfl
  have hlen : (textFrame data).payload.length = data.length := rfl
  refine ⟨by omega, by omega, fun hc => ?_⟩
  have hnot : Opcode.isControl Opcode.text = false := by decide
  rw [show (textFrame data).opcode = Opcode.text from rfl, hnot] at hc
  cases hc

theorem sendable_closeFrame (status : CloseStatus) (reason : Bytes) :
    Sendable maxFrameLength (closeFrame status reason) := by
  apply sendable_control rfl
  rw [closeFrame]
  simp only [List.length_append, length_bigEndian, List.length_take]
  omega

theorem control_short {expectMasked : Bool} {maxLen : Nat} {strm rest : Stream} {f : Frame}
    (h : readWebsocketFrame expectMasked maxLen strm = some (f, rest))
    (hop : f.opcode = .ping ∨ f.opcode = .close) : f.payload.length ≤ 125 := by
  have hc : f.opcode.isControl = true := by
    rcases hop with hop | hop <;> rw [hop] <;> decide
  obtain ⟨-, key, short, ext, -, hcode, hkept, -⟩ := readWebsocketFrame_eq_some_iff.mp h
  have hle := UInt8.le_iff_toNat_le.mp (hkept hc).2
  have hbyte : (125 : UInt8).toNat = 125 := rfl
  cases hcode with
  | short hlt =>
    rw [UInt8.toNat_ofNat'] at hle
    omega
  | medium hlt => exact absurd (hkept hc).2 (by decide)
  | long hlt => exact absurd (hkept hc).2 (by decide)

section
variable {B : Type} {cfg : SessionConfig B} {s s' : SessionState B} {es : List (SessionEffect B)}

/-- A frame that arrives was read off the client's bytes. -/
def FromClient : SessionAction → Prop
  | .receive (.frame f) =>
    ∃ strm rest, readWebsocketFrame true maxPayloadLength strm = some (f, rest)
  | _ => True

theorem readStep_sendable {closed : Bool} {point : ReadPoint} {a : Arrival}
    (h : FromClient (.receive a)) :
    ∀ f ∈ (readStep closed point a).wrote, Sendable maxFrameLength f := by
  have hdeliver : ∀ isText msg, ∀ f ∈ (deliver closed isText msg).wrote,
      Sendable maxFrameLength f := by
    intro isText msg f hf
    unfold deliver at hf
    cases closed <;> split at hf
    · rw [List.mem_singleton.mp hf]
      exact sendable_closeFrame _ _
    · cases hf
    · cases hf
    · cases hf
  cases a with
  | quiet => cases point <;> simp [readStep]
  | broken => cases point <;> simp [readStep, failed]
  | frame f =>
    obtain ⟨input, rest, hread⟩ := h
    have hpong : f.opcode = .ping → Sendable maxFrameLength (pongFrame f.payload) := by
      intro hop
      have hshort : f.payload.length ≤ 125 := control_short hread (.inl hop)
      exact sendable_control rfl hshort
    have hclose : f.opcode = .close → ∀ g ∈ (echoClose closed f.payload).wrote,
        Sendable maxFrameLength g := by
      intro hop g hg
      unfold echoClose at hg
      cases closed with
      | true => cases hg
      | false =>
        rw [List.mem_singleton.mp hg]
        have hshort : f.payload.length ≤ 125 := control_short hread (.inr hop)
        exact sendable_control rfl hshort
    intro g hg
    cases point with
    | outer =>
      simp only [readStep, readOuter] at hg
      split_ifs at hg with hop hop hop
      · rw [List.mem_singleton.mp hg]
        exact hpong hop
      · cases hg
      · exact hclose hop g hg
      · exact hdeliver _ _ g hg
      · cases hg
      · cases hg
    | inner isText msg =>
      simp only [readStep, readInner] at hg
      split_ifs at hg with hop hop hop
      · rw [List.mem_singleton.mp hg]
        exact hpong hop
      · cases hg
      · exact hclose hop g hg
      · cases hg
      · cases hg
      · exact hdeliver _ _ g hg
      · cases hg

/-- Where the rows and the replies are not too long for a frame at all. -/
structure Representable (cfg : SessionConfig B) : Prop where
  rows : cfg.maxResponseBytes < 2 ^ 63
  replies : ∀ msg body, cfg.bindMessage msg = .error body → body.length < 2 ^ 63

theorem closeSession_sendable (s : SessionState B) (status : CloseStatus) (reason : Bytes) :
    ∀ f ∈ framesSent (closeSession s status reason).2, Sendable maxFrameLength f := by
  rw [closeSession_effects, framesSent_controls]
  intro f hf
  cases hc : s.closed with
  | true =>
    rw [hc] at hf
    cases hf
  | false =>
    rw [hc] at hf
    rw [List.mem_singleton.mp hf]
    exact sendable_closeFrame _ _

theorem sessionStep_sendable (hcfg : Representable cfg) {a : SessionAction} (ha : FromClient a)
    (hstep : SessionSteps cfg s a s' es) : ∀ f ∈ framesSent es, Sendable maxFrameLength f := by
  have hrow : ∀ {data : Bytes}, s.bytesSent + data.length ≤ cfg.maxResponseBytes →
      ∀ sent, ∀ f ∈ framesSent (B := B) [.row data sent], Sendable maxFrameLength f := by
    intro data hroom sent f hf
    have hlt := hcfg.rows
    rw [List.mem_singleton.mp hf]
    exact sendable_text (by omega)
  cases hstep with
  | idle => simp [framesSent]
  | stopped => simp [framesSent]
  | moved => simp [framesSent]
  | handles => simp [framesSent, SessionEffect.frame]
  | runs => simp [framesSent, SessionEffect.frame]
  | pinged hopen sent =>
    intro f hf
    rw [List.mem_singleton.mp hf]
    exact sendable_control rfl (by simp [pingFrame])
  | @reads point hp arrival harrival =>
    subst harrival
    unfold receiveStep
    dsimp only
    rw [framesSent_controls]
    exact readStep_sendable ha
  | @refuses msg hp hrunning body hb =>
    intro f hf
    cases hc : s.closed with
    | true =>
      rw [hc] at hf
      cases hf
    | false =>
      rw [hc] at hf
      rw [List.mem_singleton.mp hf]
      exact sendable_text (hcfg.replies msg body hb)
  | fails hp reason =>
    rw [framesSent, List.filterMap_cons_none rfl]
    exact closeSession_sendable s _ _
  | closes hp status reason => exact closeSession_sendable s status reason
  | sends hp hopen hroom => exact hrow hroom true
  | loses hp hopen hroom => exact hrow hroom false
  | finishes hp =>
    unfold finishSession
    dsimp only
    rw [framesSent, List.filterMap_append]
    intro f hf
    rcases List.mem_append.mp hf with hf | hf
    · exact closeSession_sendable s _ _ f hf
    · cases hf

def SessionEffect.lost : SessionEffect B → Bool
  | .row _ sent => !sent
  | _ => false

/-- What a step leaves on the wire: its frame, or the beginnings of it where a write was cut short. -/
inductive SessionEffect.Leaves (e : SessionEffect B) : Bytes → Prop
  | silent (h : e.frame = none) : Leaves e []
  | whole {f : Frame} (h : e.frame = some f) (hkept : e.lost = false) : Leaves e (frameWrites f).flatten
  | cut {f : Frame} {bytes : Bytes} (h : e.frame = some f) (hcut : CutShort f bytes) : Leaves e bytes

theorem framesRead_leaves {es : List (SessionEffect B)} {texts : List Bytes}
    (h : ∀ f ∈ framesSent es, Sendable maxFrameLength f)
    (htexts : List.Forall₂ SessionEffect.Leaves es texts) :
    ∃ n, FramesRead false maxFrameLength (inOneSegment texts.flatten) (framesSent (es.take n))
        (inOneSegment (texts.drop n).flatten) ∧
      (n = es.length ∨ ∃ e f bytes, es[n]? = some e ∧ e.frame = some f ∧ texts[n]? = some bytes ∧
        CutShort f bytes) := by
  induction htexts with
  | nil => exact ⟨0, .done, .inl rfl⟩
  | @cons e bytes es texts hleaves _ ih =>
    cases hleaves with
    | silent hnone =>
      have hsame : framesSent (e :: es) = framesSent es := List.filterMap_cons_none hnone
      obtain ⟨n, hread, hend⟩ := ih (by rwa [← hsame])
      refine ⟨n + 1, ?_, hend.imp (congrArg Nat.succ) id⟩
      rw [List.take_succ_cons, List.drop_succ_cons, framesSent, List.filterMap_cons_none hnone]
      exact hread
    | @whole f hf hkept =>
      have hcons : framesSent (e :: es) = f :: framesSent es := List.filterMap_cons_some hf
      rw [hcons] at h
      obtain ⟨n, hread, hend⟩ := ih fun g hg => h g (List.mem_cons_of_mem f hg)
      refine ⟨n + 1, ?_, hend.imp (congrArg Nat.succ) id⟩
      rw [List.take_succ_cons, List.drop_succ_cons, framesSent, List.filterMap_cons_some hf,
        List.flatten_cons, flatten_frameWrites]
      exact .next (read_write (h f List.mem_cons_self) none _) hread
    | @cut f _ hf hcut => exact ⟨0, .done, .inr ⟨e, f, bytes, rfl, hf, rfl, hcut⟩⟩

/-- Whatever the interleaving and the writes, the client reads the frames that were handed to the stream
before the first that a write has cut short; without one, all of them to the last byte. -/
theorem session_wire (hcfg : Representable cfg) {as : List SessionAction}
    (has : ∀ a ∈ as, FromClient a) {texts : List Bytes}
    (htexts : List.Forall₂ SessionEffect.Leaves ((sessionMachine cfg).emitted (newSession cfg) as) texts) :
    let es := (sessionMachine cfg).emitted (newSession cfg) as
    ∃ n, FramesRead false maxFrameLength (inOneSegment texts.flatten) (framesSent (es.take n))
        (inOneSegment (texts.drop n).flatten) ∧
      (n = es.length ∨ ∃ e f bytes, es[n]? = some e ∧ e.frame = some f ∧ texts[n]? = some bytes ∧
        CutShort f bytes) := by
  intro es
  have hall : ∀ s : SessionState B, ∀ f ∈ framesSent ((sessionMachine cfg).emitted s as),
      Sendable maxFrameLength f := by
    clear htexts
    induction as with
    | nil => simp [framesSent]
    | cons a as ih =>
      intro s f hf
      rw [Machine.emitted_cons, framesSent, List.filterMap_append] at hf
      rcases List.mem_append.mp hf with hf | hf
      · have ha := has a List.mem_cons_self
        exact sessionStep_sendable hcfg ha (sessionStep_steps cfg s a) f hf
      · exact ih (fun b hb => has b (List.mem_cons_of_mem a hb)) _ f hf
  exact framesRead_leaves (hall (newSession cfg)) htexts

end

/-- A client that is asked for a message, sends a ping and goes on; the heartbeat's ping is cut after a
byte. -/
theorem session_wire_ping :
    let cfg : SessionConfig Bytes := ⟨true, 0, 1000, fun msg => .ok msg⟩
    let as : List SessionAction := [.next, .next, .receive (.frame ⟨true, .ping, [7]⟩), .ping false]
    let es := (sessionMachine cfg).emitted (newSession cfg) as
    es = [.control ⟨true, .pong, [7]⟩, .control pingFrame] ∧
      ∃ n, FramesRead false maxFrameLength (inOneSegment [0x8A, 1, 7, 0x89]) (framesSent (es.take n))
          (inOneSegment ([[0x8A, 1, 7], [0x89]].drop n).flatten) ∧
        (n = es.length ∨ ∃ e f bytes, es[n]? = some e ∧ e.frame = some f ∧
          [[0x8A, 1, 7], [0x89]][n]? = some bytes ∧ CutShort f bytes) := by
  intro cfg as es
  have hcfg : Representable cfg := by
    refine ⟨by decide, fun msg body h => ?_⟩
    cases h
  have has : ∀ a ∈ as, FromClient a := by
    intro a ha
    rcases List.mem_cons.mp ha with rfl | ha
    · trivial
    rcases List.mem_cons.mp ha with rfl | ha
    · trivial
    rcases List.mem_cons.mp ha with rfl | ha
    · exact ⟨inOneSegment [0x89, 0x81, 0, 0, 0, 0, 7], [], rfl⟩
    · rw [List.mem_singleton.mp ha]
      trivial
  have hcut : CutShort pingFrame [0x89] := by
    refine ⟨[[0x89]], .cons ⟨[0], rfl⟩ .nil, by decide, rfl⟩
  have hpong : SessionEffect.Leaves (B := Bytes) (.control (pongFrame [7])) [0x8A, 1, 7] :=
    .whole (f := pongFrame [7]) rfl rfl
  have htexts : List.Forall₂ SessionEffect.Leaves es [[0x8A, 1, 7], [0x89]] :=
    .cons hpong (.cons (.cut rfl hcut) .nil)
  exact ⟨rfl, session_wire hcfg has htexts⟩

end Quackapi.WebSocket
