import Sponge.Lib.Checked
import Sponge.Codec.Ethernet
import Sponge.Codec.Tcp

/-!
# Parsers stay in their buffers

The parsers once more, this time on buffers, with every access to a byte, every
discarded prefix, every difference of lengths and every range checked. They
return what the parsers on byte strings return, whatever the bytes are: nothing
is read past the end of a buffer, and nothing is thrown.
-/

namespace Sponge

open Lib

def Exception.fault : Exception → Fault
  | .runtimeError what | .outOfRange what => .outOfRange what

theorem EthernetAddress.size_bytes (b₀ b₁ b₂ b₃ b₄ b₅ : UInt8) :
    #[b₀, b₁, b₂, b₃, b₄, b₅].size = 6 := rfl

/-- A parser with the buffer that it reads. -/
structure BufferParser where
  buffer : Buffer
  error : ParseResult := .noError

namespace BufferParser

/-- What the parser sees: the bytes that are left, and the result so far. -/
def view (p : BufferParser) : NetParser := ⟨p.buffer.str, p.error⟩

def checkSize (p : BufferParser) (size : ℕ) : BufferParser :=
  if size > p.buffer.size then { p with error := .packetTooShort } else p

/-- The loop over the bytes of a number. -/
def readInt (b : Buffer) (len : ℕ) : Except Fault ℕ :=
  (List.range len).foldlM
    (fun ret i ↦ do return ret * 2 ^ 8 + (← (b.atIndex i).mapError Exception.fault).toNat) 0

def parseInt (p : BufferParser) (len : ℕ) : Except Fault (ℕ × BufferParser) :=
  let p := p.checkSize len
  if p.error ≠ .noError then return (0, p)
  else do
    let ret ← readInt p.buffer len
    let buffer ← (p.buffer.removePrefix len).mapError Exception.fault
    return (ret, { p with buffer })

def u32 (p : BufferParser) : Except Fault (UInt32 × BufferParser) := do
  let (ret, p) ← p.parseInt 4
  return (UInt32.ofNat ret, p)

def u16 (p : BufferParser) : Except Fault (UInt16 × BufferParser) := do
  let (ret, p) ← p.parseInt 2
  return (UInt16.ofNat ret, p)

def u8 (p : BufferParser) : Except Fault (UInt8 × BufferParser) := do
  let (ret, p) ← p.parseInt 1
  return (UInt8.ofNat ret, p)

def removePrefix (p : BufferParser) (n : ℕ) : Except Fault BufferParser :=
  let p := p.checkSize n
  if p.error ≠ .noError then return p
  else do
    let buffer ← (p.buffer.removePrefix n).mapError Exception.fault
    return { p with buffer }

def ethernetAddress (p : BufferParser) : Except Fault (EthernetAddress × BufferParser) := do
  let (b₀, p) ← p.u8
  let (b₁, p) ← p.u8
  let (b₂, p) ← p.u8
  let (b₃, p) ← p.u8
  let (b₄, p) ← p.u8
  let (b₅, p) ← p.u8
  return (⟨#[b₀, b₁, b₂, b₃, b₄, b₅], EthernetAddress.size_bytes b₀ b₁ b₂ b₃ b₄ b₅⟩, p)

variable {p : BufferParser} {n : ℕ}

theorem view_checkSize (p : BufferParser) (size : ℕ) :
    (p.checkSize size).view = p.view.checkSize size := by
  rw [checkSize, NetParser.checkSize]
  exact apply_ite view _ _ _

theorem readInt_of_le {b : Buffer} {len : ℕ} (h : len ≤ b.str.length) :
    readInt b len =
      .ok ((b.str.take len).foldl (fun ret byte ↦ ret * 2 ^ 8 + byte.toNat) 0) := by
  induction len with
  | zero => rfl
  | succ len ih =>
      have hlt : len < b.str.length := h
      have hstep := ih hlt.le
      rw [readInt] at hstep ⊢
      rw [List.range_succ, List.foldlM_append, hstep, List.take_add_one, List.foldl_append,
        List.getElem?_eq_getElem hlt]
      simp only [bind, Except.bind, List.foldlM_cons, List.foldlM_nil, Buffer.atIndex_of_lt hlt]
      rfl

theorem le_of_not_error (h : ¬(p.checkSize n).error ≠ .noError) :
    n ≤ (p.checkSize n).buffer.str.length := by
  rw [checkSize] at h ⊢
  split_ifs at h ⊢ with hsize
  · exact absurd (by simp) h
  · exact not_lt.mp hsize

@[simp] theorem buffer_view (p : BufferParser) : p.view.buffer = p.buffer.str := rfl

@[simp] theorem error_view (p : BufferParser) : p.view.error = p.error := rfl

theorem view_mk (buffer : Buffer) : view { buffer } = { buffer := buffer.str } := rfl

theorem returns_parseInt (p : BufferParser) (len : ℕ) :
    Returns (p.parseInt len) fun r ↦ (r.1, r.2.view) = p.view.parseInt len := by
  simp only [NetParser.parseInt, ← view_checkSize, parseInt, error_view, buffer_view]
  by_cases herror : (p.checkSize len).error ≠ .noError
  · rw [if_pos herror, if_pos herror]
    exact .of_pure rfl
  · have hle := le_of_not_error herror
    rw [if_neg herror, if_neg herror]
    refine .bind (.of_eq (readInt_of_le hle) rfl) ?_
    rintro _ rfl
    refine .bind (.of_eq (congrArg _ (Buffer.removePrefix_of_le hle)) rfl) ?_
    rintro _ rfl
    refine .of_pure ?_
    rw [view, Buffer.str_advance]

theorem returns_u8 (p : BufferParser) :
    Returns p.u8 fun r ↦ (r.1, r.2.view) = p.view.u8 := by
  refine (returns_parseInt p 1).bind fun r hr ↦ .of_pure ?_
  rw [NetParser.u8, ← hr]

theorem returns_u16 (p : BufferParser) :
    Returns p.u16 fun r ↦ (r.1, r.2.view) = p.view.u16 := by
  refine (returns_parseInt p 2).bind fun r hr ↦ .of_pure ?_
  rw [NetParser.u16, ← hr]

theorem returns_u32 (p : BufferParser) :
    Returns p.u32 fun r ↦ (r.1, r.2.view) = p.view.u32 := by
  refine (returns_parseInt p 4).bind fun r hr ↦ .of_pure ?_
  rw [NetParser.u32, ← hr]

theorem returns_removePrefix (p : BufferParser) (n : ℕ) :
    Returns (p.removePrefix n) fun r ↦ r.view = p.view.removePrefix n := by
  simp only [NetParser.removePrefix, ← view_checkSize, removePrefix, error_view, buffer_view]
  by_cases herror : (p.checkSize n).error ≠ .noError
  · rw [if_pos herror, if_pos herror]
    exact .of_pure rfl
  · have hle := le_of_not_error herror
    rw [if_neg herror, if_neg herror]
    refine .bind (.of_eq (congrArg _ (Buffer.removePrefix_of_le hle)) rfl) ?_
    rintro _ rfl
    refine .of_pure ?_
    rw [view, Buffer.str_advance]

theorem returns_ethernetAddress (p : BufferParser) :
    Returns p.ethernetAddress fun r ↦ (r.1, r.2.view) = p.view.ethernetAddress := by
  refine (returns_u8 p).bind_pair fun b₀ p₀ h₀ ↦ ?_
  refine (returns_u8 p₀).bind_pair fun b₁ p₁ h₁ ↦ ?_
  refine (returns_u8 p₁).bind_pair fun b₂ p₂ h₂ ↦ ?_
  refine (returns_u8 p₂).bind_pair fun b₃ p₃ h₃ ↦ ?_
  refine (returns_u8 p₃).bind_pair fun b₄ p₄ h₄ ↦ ?_
  refine (returns_u8 p₄).bind_pair fun b₅ p₅ h₅ ↦ ?_
  refine .of_pure ?_
  simp only [NetParser.ethernetAddress, ← h₀, ← h₁, ← h₂, ← h₃, ← h₄, ← h₅]

/-- A header of at least five words has the twenty bytes of its fixed part. -/
theorem twenty_le_of_not_lt {words : UInt8} (h : ¬words < 5) : 20 ≤ words.toNat * 4 := by
  have hle : 5 ≤ words.toNat := UInt8.le_iff_toNat_le.mp (UInt8.not_lt.mp h)
  omega

/-! An error is never taken back, and nothing is read after it. -/

theorem error_checkSize_of_error (h : p.error ≠ .noError) (n : ℕ) :
    (p.checkSize n).error ≠ .noError := by
  rw [checkSize]
  split_ifs with hsize
  · simp
  · exact h

theorem buffer_checkSize (p : BufferParser) (n : ℕ) : (p.checkSize n).buffer = p.buffer := by
  rw [checkSize]
  split_ifs with hsize
  · rfl
  · rfl

theorem parseInt_of_error (h : p.error ≠ .noError) (len : ℕ) :
    p.parseInt len = .ok (0, p.checkSize len) :=
  if_pos (error_checkSize_of_error h len)

theorem removePrefix_of_error (h : p.error ≠ .noError) (n : ℕ) :
    p.removePrefix n = .ok (p.checkSize n) :=
  if_pos (error_checkSize_of_error h n)

/-- The parser after a read that consumed nothing and kept the error. -/
def Stuck (p p' : BufferParser) : Prop := p'.buffer = p.buffer ∧ p'.error ≠ .noError

theorem stuck_checkSize (h : p.error ≠ .noError) (n : ℕ) : Stuck p (p.checkSize n) :=
  ⟨buffer_checkSize p n, error_checkSize_of_error h n⟩

end BufferParser

namespace EthernetHeader

def checkedParse (header : EthernetHeader) (p : BufferParser) :
    Except Fault (ParseResult × EthernetHeader × BufferParser) :=
  if p.buffer.size < length then return (.packetTooShort, header, p)
  else do
    let (dst, p) ← p.ethernetAddress
    let (src, p) ← p.ethernetAddress
    let (type, p) ← p.u16
    return (p.error, { dst, src, type }, p)

theorem returns_checkedParse (header : EthernetHeader) (p : BufferParser) :
    Returns (header.checkedParse p) fun r ↦ (r.1, r.2.1, r.2.2.view) = header.parse p.view := by
  rw [checkedParse, parse, BufferParser.buffer_view, Buffer.size]
  refine .of_ite (fun _ ↦ .of_pure rfl) fun _ ↦ ?_
  refine (BufferParser.returns_ethernetAddress p).bind_pair fun dst p₁ h₁ ↦ ?_
  refine (BufferParser.returns_ethernetAddress p₁).bind_pair fun src p₂ h₂ ↦ ?_
  refine (BufferParser.returns_u16 p₂).bind_pair fun type p₃ h₃ ↦ .of_pure ?_
  simp only [← h₁, ← h₂, ← h₃, BufferParser.error_view]

end EthernetHeader

namespace EthernetFrame

def checkedParse (frame : EthernetFrame) (buffer : Buffer) :
    Except Fault (ParseResult × EthernetFrame) := do
  let (_, header, p) ← frame.header.checkedParse { buffer }
  return (p.error, { header, payload := p.buffer.str })

theorem checkedParse_eq (frame : EthernetFrame) (buffer : Buffer) :
    frame.checkedParse buffer = .ok (frame.parse buffer.str) := by
  apply Returns.eq
  refine (frame.header.returns_checkedParse { buffer }).bind ?_
  rintro ⟨_, header, p⟩ h
  refine .of_pure ?_
  rw [BufferParser.view_mk] at h
  simp only [parse, ← h, BufferParser.error_view, BufferParser.buffer_view]

end EthernetFrame

namespace ArpMessage

def checkedParse (msg : ArpMessage) (buffer : Buffer) :
    Except Fault (ParseResult × ArpMessage) :=
  let p : BufferParser := { buffer }
  if p.buffer.size < length then return (.packetTooShort, msg)
  else do
    let (hardwareType, p) ← p.u16
    let (protocolType, p) ← p.u16
    let (hardwareAddressSize, p) ← p.u8
    let (protocolAddressSize, p) ← p.u8
    let (opcode, p) ← p.u16
    let msg := { msg with
      hardwareType, protocolType, hardwareAddressSize, protocolAddressSize, opcode }
    if ¬msg.Supported then return (.unsupported, msg)
    else
      let (senderEthernetAddress, p) ← p.ethernetAddress
      let (senderIpAddress, p) ← p.u32
      let (targetEthernetAddress, p) ← p.ethernetAddress
      let (targetIpAddress, p) ← p.u32
      return (p.error, { msg with
        senderEthernetAddress, senderIpAddress, targetEthernetAddress, targetIpAddress })

theorem checkedParse_eq (msg : ArpMessage) (buffer : Buffer) :
    msg.checkedParse buffer = .ok (msg.parse buffer.str) := by
  apply Returns.eq
  rw [checkedParse, parse, Buffer.size]
  refine .of_ite (fun _ ↦ .of_pure rfl) fun _ ↦ ?_
  refine (BufferParser.returns_u16 { buffer }).bind_pair fun hardwareType p₁ h₁ ↦ ?_
  refine (BufferParser.returns_u16 p₁).bind_pair fun protocolType p₂ h₂ ↦ ?_
  refine (BufferParser.returns_u8 p₂).bind_pair fun hardwareAddressSize p₃ h₃ ↦ ?_
  refine (BufferParser.returns_u8 p₃).bind_pair fun protocolAddressSize p₄ h₄ ↦ ?_
  refine (BufferParser.returns_u16 p₄).bind_pair fun opcode p₅ h₅ ↦ ?_
  rw [BufferParser.view_mk] at h₁
  simp only [← h₁, ← h₂, ← h₃, ← h₄, ← h₅]
  refine .of_ite (fun _ ↦ .of_pure rfl) fun _ ↦ ?_
  refine (BufferParser.returns_ethernetAddress p₅).bind_pair fun sender p₆ h₆ ↦ ?_
  refine (BufferParser.returns_u32 p₆).bind_pair fun senderIp p₇ h₇ ↦ ?_
  refine (BufferParser.returns_ethernetAddress p₇).bind_pair fun target p₈ h₈ ↦ ?_
  refine (BufferParser.returns_u32 p₈).bind_pair fun targetIp p₉ h₉ ↦ .of_pure ?_
  simp only [← h₆, ← h₇, ← h₈, ← h₉, BufferParser.error_view]

end ArpMessage

namespace Ipv4Header

def checkedParse (header : Ipv4Header) (p : BufferParser) :
    Except Fault (ParseResult × Ipv4Header × BufferParser) :=
  let originalSerializedVersion := p.buffer
  let dataSize := p.buffer.size
  if dataSize < length then return (.packetTooShort, header, p)
  else do
    let (firstByte, p) ← p.u8
    let ver := firstByte >>> 4
    let hlen := firstByte &&& 0x0f
    let (tos, p) ← p.u8
    let (len, p) ← p.u16
    let (id, p) ← p.u16
    let (foVal, p) ← p.u16
    let df := foVal &&& 0x4000 != 0
    let mf := foVal &&& 0x2000 != 0
    let offset := foVal &&& 0x1fff
    let (ttl, p) ← p.u8
    let (proto, p) ← p.u8
    let (cksum, p) ← p.u16
    let (src, p) ← p.u32
    let (dst, p) ← p.u32
    let header : Ipv4Header :=
      { ver, hlen, tos, len, id, df, mf, offset, ttl, proto, cksum, src, dst }
    if dataSize < 4 * hlen.toNat then return (.packetTooShort, header, p)
    else if ver ≠ 4 then return (.wrongIpVersion, header, p)
    else if hlen < 5 then return (.headerTooShort, header, p)
    else if dataSize ≠ len.toNat then return (.truncatedPacket, header, p)
    else
      let p ← p.removePrefix (← checkedSub (hlen.toNat * 4) length)
      if p.error ≠ .noError then return (p.error, header, p)
      else
        checkedRange originalSerializedVersion.size 0 (4 * hlen.toNat)
        let check :=
          InternetChecksum.add {} (originalSerializedVersion.str.take (4 * hlen.toNat))
        if check.value ≠ 0 then return (.badChecksum, header, p)
        else return (.noError, header, p)

theorem returns_checkedParse (header : Ipv4Header) (p : BufferParser) :
    Returns (header.checkedParse p) fun r ↦ (r.1, r.2.1, r.2.2.view) = header.parse p.view := by
  rw [checkedParse, parse, BufferParser.buffer_view, Buffer.size]
  refine .of_ite (fun _ ↦ .of_pure rfl) fun _ ↦ ?_
  refine (BufferParser.returns_u8 p).bind_pair fun firstByte p₁ h₁ ↦ ?_
  refine (BufferParser.returns_u8 p₁).bind_pair fun tos p₂ h₂ ↦ ?_
  refine (BufferParser.returns_u16 p₂).bind_pair fun len p₃ h₃ ↦ ?_
  refine (BufferParser.returns_u16 p₃).bind_pair fun id p₄ h₄ ↦ ?_
  refine (BufferParser.returns_u16 p₄).bind_pair fun foVal p₅ h₅ ↦ ?_
  refine (BufferParser.returns_u8 p₅).bind_pair fun ttl p₆ h₆ ↦ ?_
  refine (BufferParser.returns_u8 p₆).bind_pair fun proto p₇ h₇ ↦ ?_
  refine (BufferParser.returns_u16 p₇).bind_pair fun cksum p₈ h₈ ↦ ?_
  refine (BufferParser.returns_u32 p₈).bind_pair fun src p₉ h₉ ↦ ?_
  refine (BufferParser.returns_u32 p₉).bind_pair fun dst q hq ↦ ?_
  simp only [← h₁, ← h₂, ← h₃, ← h₄, ← h₅, ← h₆, ← h₇, ← h₈, ← h₉, ← hq]
  refine .of_ite (fun _ ↦ .of_pure rfl) fun hfits ↦ ?_
  refine .of_ite (fun _ ↦ .of_pure rfl) fun _ ↦ ?_
  refine .of_ite (fun _ ↦ .of_pure rfl) fun hhlen ↦ ?_
  refine .of_ite (fun _ ↦ .of_pure rfl) fun _ ↦ ?_
  -- both checks of the header's length were passed
  refine .bind (.of_eq (checkedSub_of_le (BufferParser.twenty_le_of_not_lt hhlen)) rfl) ?_
  rintro _ rfl
  refine (BufferParser.returns_removePrefix q _).bind fun q' hq' ↦ ?_
  rw [← hq', BufferParser.error_view]
  refine .of_ite (fun _ ↦ .of_pure rfl) fun _ ↦ ?_
  refine .bind (.of_eq (checkedRange_of_le (Nat.zero_le _) (not_lt.mp hfits)) rfl) ?_
  rintro _ rfl
  exact .of_ite (fun _ ↦ .of_pure rfl) fun _ ↦ .of_pure rfl

end Ipv4Header

namespace Ipv4Datagram

def checkedParse (dgram : Ipv4Datagram) (buffer : Buffer) :
    Except Fault (ParseResult × Ipv4Datagram) := do
  let (_, header, p) ← dgram.header.checkedParse { buffer }
  let dgram : Ipv4Datagram := { header, payload := p.buffer.str }
  if p.buffer.size ≠ dgram.header.payloadLength.toNat then return (.packetTooShort, dgram)
  else return (p.error, dgram)

theorem checkedParse_eq (dgram : Ipv4Datagram) (buffer : Buffer) :
    dgram.checkedParse buffer = .ok (dgram.parse buffer.str) := by
  apply Returns.eq
  refine (dgram.header.returns_checkedParse { buffer }).bind ?_
  rintro ⟨_, header, p⟩ h
  rw [BufferParser.view_mk] at h
  simp only [parse, ← h, BufferParser.error_view, BufferParser.buffer_view, Buffer.size]
  exact .of_ite (fun _ ↦ .of_pure rfl) fun _ ↦ .of_pure rfl

end Ipv4Datagram

namespace TcpHeader

def checkedParse (p : BufferParser) : Except Fault (ParseResult × TcpHeader × BufferParser) := do
  let (sport, p) ← p.u16
  let (dport, p) ← p.u16
  let (seqno, p) ← p.u32
  let (ackno, p) ← p.u32
  let (offset, p) ← p.u8
  let doff := offset >>> 4
  let (flB, p) ← p.u8
  let urg := flB &&& 0b00100000 != 0
  let ack := flB &&& 0b00010000 != 0
  let psh := flB &&& 0b00001000 != 0
  let rst := flB &&& 0b00000100 != 0
  let syn := flB &&& 0b00000010 != 0
  let fin := flB &&& 0b00000001 != 0
  let (win, p) ← p.u16
  let (cksum, p) ← p.u16
  let (uptr, p) ← p.u16
  let header : TcpHeader :=
    { sport, dport, seqno := ⟨seqno⟩, ackno := ⟨ackno⟩, doff, urg, ack, psh, rst, syn, fin, win,
      cksum, uptr }
  if doff < 5 then return (.headerTooShort, header, p)
  else
    let p ← p.removePrefix (← checkedSub (doff.toNat * 4) length)
    if p.error ≠ .noError then return (p.error, header, p) else return (.noError, header, p)

theorem returns_checkedParse (p : BufferParser) :
    Returns (checkedParse p) fun r ↦ (r.1, r.2.1, r.2.2.view) = parse p.view := by
  rw [checkedParse, parse]
  refine (BufferParser.returns_u16 p).bind_pair fun sport p₁ h₁ ↦ ?_
  refine (BufferParser.returns_u16 p₁).bind_pair fun dport p₂ h₂ ↦ ?_
  refine (BufferParser.returns_u32 p₂).bind_pair fun seqno p₃ h₃ ↦ ?_
  refine (BufferParser.returns_u32 p₃).bind_pair fun ackno p₄ h₄ ↦ ?_
  refine (BufferParser.returns_u8 p₄).bind_pair fun offset p₅ h₅ ↦ ?_
  refine (BufferParser.returns_u8 p₅).bind_pair fun flB p₆ h₆ ↦ ?_
  refine (BufferParser.returns_u16 p₆).bind_pair fun win p₇ h₇ ↦ ?_
  refine (BufferParser.returns_u16 p₇).bind_pair fun cksum p₈ h₈ ↦ ?_
  refine (BufferParser.returns_u16 p₈).bind_pair fun uptr q hq ↦ ?_
  simp only [← h₁, ← h₂, ← h₃, ← h₄, ← h₅, ← h₆, ← h₇, ← h₈, ← hq]
  refine .of_ite (fun _ ↦ .of_pure rfl) fun hdoff ↦ ?_
  refine .bind (.of_eq (checkedSub_of_le (BufferParser.twenty_le_of_not_lt hdoff)) rfl) ?_
  rintro _ rfl
  refine (BufferParser.returns_removePrefix q _).bind fun q' hq' ↦ ?_
  rw [← hq', BufferParser.error_view]
  exact .of_ite (fun _ ↦ .of_pure rfl) fun _ ↦ .of_pure rfl

end TcpHeader

namespace TcpSegment

def checkedParse (seg : TcpSegment) (buffer : Buffer) (datagramLayerChecksum : UInt32) :
    Except Fault (ParseResult × TcpSegment) :=
  let check := InternetChecksum.add { sum := datagramLayerChecksum } buffer.str
  if check.value ≠ 0 then return (.badChecksum, seg)
  else do
    let (_, header, p) ← TcpHeader.checkedParse { buffer }
    return (p.error, { header, payload := p.buffer.str })

theorem checkedParse_eq (seg : TcpSegment) (buffer : Buffer) (datagramLayerChecksum : UInt32) :
    seg.checkedParse buffer datagramLayerChecksum =
      .ok (seg.parse buffer.str datagramLayerChecksum) := by
  apply Returns.eq
  rw [checkedParse, parse]
  refine .of_ite (fun _ ↦ .of_pure rfl) fun _ ↦ ?_
  refine (TcpHeader.returns_checkedParse { buffer }).bind ?_
  rintro ⟨_, header, p⟩ h
  refine .of_pure ?_
  rw [BufferParser.view_mk] at h
  simp only [← h, BufferParser.error_view, BufferParser.buffer_view]

end TcpSegment

/-- On any bytes the parsers return, with all their accesses inside the buffer; and a parser that
has failed reads zeros and consumes nothing. -/
theorem BufferParser.parsers_stay_in_bounds (buffer : Buffer) :
    (∀ frame : EthernetFrame, frame.checkedParse buffer = .ok (frame.parse buffer.str)) ∧
    (∀ msg : ArpMessage, msg.checkedParse buffer = .ok (msg.parse buffer.str)) ∧
    (∀ dgram : Ipv4Datagram, dgram.checkedParse buffer = .ok (dgram.parse buffer.str)) ∧
    (∀ (seg : TcpSegment) (datagramLayerChecksum : UInt32),
      seg.checkedParse buffer datagramLayerChecksum =
        .ok (seg.parse buffer.str datagramLayerChecksum)) ∧
    ∀ p : BufferParser, p.error ≠ .noError →
      (∃ p', p.u8 = .ok (0, p') ∧ Stuck p p') ∧ (∃ p', p.u16 = .ok (0, p') ∧ Stuck p p') ∧
      (∃ p', p.u32 = .ok (0, p') ∧ Stuck p p') ∧
      ∀ n, ∃ p', p.removePrefix n = .ok p' ∧ Stuck p p' := by
  refine ⟨fun frame ↦ frame.checkedParse_eq buffer, fun msg ↦ msg.checkedParse_eq buffer,
    fun dgram ↦ dgram.checkedParse_eq buffer, fun seg ↦ seg.checkedParse_eq buffer, ?_⟩
  intro p h
  refine ⟨⟨_, ?_, stuck_checkSize h 1⟩, ⟨_, ?_, stuck_checkSize h 2⟩,
    ⟨_, ?_, stuck_checkSize h 4⟩, fun n ↦ ⟨_, removePrefix_of_error h n, stuck_checkSize h n⟩⟩
  · rw [u8, parseInt_of_error h]
    rfl
  · rw [u16, parseInt_of_error h]
    rfl
  · rw [u32, parseInt_of_error h]
    rfl

end Sponge
