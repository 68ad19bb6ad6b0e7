import Sponge.Sender.Outstanding

/-!
# The retransmission timer

The sender keeps a timestamp with every outstanding segment, and its clock stands
still while nothing is outstanding. Only the first timestamp is ever compared with
the clock. That makes it a single timer: started when a segment is sent while
nothing is outstanding, reset by an acknowledgment of something new, and backed
off when it expires. The timer runs on real time, so the clocks of the two agree
on how long the timer runs, not on the time itself. The sender measures that with
64 bits and counts its retransmissions with 32.
-/

namespace Sponge

open Lib

/-- One timer for all outstanding segments. -/
structure RetxTimer where
  now : ℕ := 0
  start : ℕ := 0
  rto : ℕ
  count : ℕ := 0
  deriving DecidableEq

namespace RetxTimer

def elapse (t : RetxTimer) (ms : ℕ) : RetxTimer := { t with now := t.now + ms }

def restart (t : RetxTimer) : RetxTimer := { t with start := t.now }

def reset (t : RetxTimer) (initial : ℕ) : RetxTimer :=
  { t with start := t.now, rto := initial, count := 0 }

/-- The timer has run for its timeout, as far as 64 bits tell. -/
def Expired (t : RetxTimer) : Prop := t.rto ≤ (t.now - t.start) % 2 ^ 64

instance (t : RetxTimer) : Decidable t.Expired := inferInstanceAs (Decidable (_ ≤ _))

/-- The timer starts again, and backs off unless the window is closed. -/
def timeout (t : RetxTimer) (windowSize : ℕ) : RetxTimer :=
  if windowSize ≠ 0 then
    { t with start := t.now, rto := mul64 t.rto 2, count := t.count + 1 }
  else t.restart

/-- The timeout was doubled once for every retransmission counted. -/
def Doubled (initial : ℕ) (t : RetxTimer) : Prop :=
  t.start ≤ t.now ∧ t.rto = initial * 2 ^ t.count % 2 ^ 64

theorem Doubled.restart {initial : ℕ} {t : RetxTimer} (h : t.Doubled initial) :
    t.restart.Doubled initial :=
  ⟨le_refl _, h.2⟩

theorem doubled_reset {initial : ℕ} (hinitial : initial < 2 ^ 64) (t : RetxTimer) :
    (t.reset initial).Doubled initial := by
  refine ⟨le_refl _, ?_⟩
  simp only [reset, pow_zero, mul_one]
  exact (Nat.mod_eq_of_lt hinitial).symm

theorem Doubled.elapse {initial : ℕ} {t : RetxTimer} (h : t.Doubled initial) (ms : ℕ) :
    (t.elapse ms).Doubled initial :=
  ⟨h.1.trans (Nat.le_add_right _ _), h.2⟩

theorem Doubled.timeout {initial : ℕ} {t : RetxTimer} (h : t.Doubled initial) (windowSize : ℕ) :
    (t.timeout windowSize).Doubled initial := by
  rw [RetxTimer.timeout]
  split_ifs
  · refine ⟨le_refl _, ?_⟩
    simp only [mul64, h.2, Nat.mod_mul_mod, pow_succ, Nat.mul_assoc]
  · exact h.restart

end RetxTimer

/-- A sender with the timer that it should follow. -/
structure Timed where
  sender : TcpSender
  timer : RetxTimer

namespace Timed

open TcpSender

variable {t : Timed} {s s' : TcpSender} {timer : RetxTimer} {initial : ℕ}
  {ackno : WrappingInt32}

def new (sender : TcpSender) : Timed where
  sender := sender
  timer := { rto := sender.initialRetransmissionTimeout }

/-- The acknowledgment is of something sent that was not acknowledged before. -/
def AcksNew (s : TcpSender) (ackno : WrappingInt32) : Prop :=
  s.ackAbs < s.absoluteAckno ackno ∧ s.absoluteAckno ackno ≤ s.nextSeqno

instance (s : TcpSender) (ackno : WrappingInt32) : Decidable (AcksNew s ackno) :=
  inferInstanceAs (Decidable (_ ∧ _))

/-- The timer after a tick. -/
def onTick (t : Timed) (ms : ℕ) : RetxTimer :=
  if t.sender.segmentsOutstanding ≠ [] ∧ (t.timer.elapse ms).Expired then
    (t.timer.elapse ms).timeout t.sender.windowSize
  else t.timer.elapse ms

/-- The timer starts when a segment is sent while nothing is outstanding. -/
def onSend (timer : RetxTimer) (s s' : TcpSender) : RetxTimer :=
  if s.segmentsOutstanding = [] ∧ s'.segmentsOutstanding ≠ [] then timer.restart else timer

def onAck (t : Timed) (ackno : WrappingInt32) : RetxTimer :=
  if AcksNew t.sender ackno then t.timer.reset t.sender.initialRetransmissionTimeout
  else t.timer

def step (t : Timed) (op : Op) : Timed where
  sender := t.sender.step op
  timer := match op with
    | .tick ms => t.onTick ms
    | .ackReceived ackno _ => onSend (t.onAck ackno) t.sender (t.sender.step op)
    | _ => onSend t.timer t.sender (t.sender.step op)

/-- The sender follows the timer: the first timestamp is as long ago as the start of the
timer, and the two agree on the timeout and, modulo `2 ^ 32`, on the retransmissions. -/
structure Follows (initial : ℕ) (t : Timed) : Prop where
  initial_eq : t.sender.initialRetransmissionTimeout = initial
  initial_lt : initial < 2 ^ 64
  windowSize_lt : t.sender.windowSize < 2 ^ 16
  counts : t.sender.Counts
  unsent : t.sender.nextSeqno = 0 →
    t.sender.timestampsOutstanding = [] ∧ t.timer.rto = initial ∧ t.timer.count = 0
  length_timestamps :
    t.sender.timestampsOutstanding.length = t.sender.segmentsOutstanding.length
  length_seqnos : t.sender.seqnosAbsOutstanding.length = t.sender.segmentsOutstanding.length
  time_lt : t.sender.time < 2 ^ 64
  elapsed : ∀ first ∈ t.sender.timestampsOutstanding.head?, first < 2 ^ 64 ∧
    sub64 t.sender.time first = (t.timer.now - t.timer.start) % 2 ^ 64
  currRto : t.sender.currRto = t.timer.rto
  consecRetrans : t.sender.consecRetrans = t.timer.count % 2 ^ 32
  doubled : t.timer.Doubled initial

theorem Follows.outstanding_iff (h : t.Follows initial) :
    t.sender.segmentsOutstanding = [] ↔ t.sender.timestampsOutstanding = [] := by
  rw [← List.length_eq_zero_iff, ← List.length_eq_zero_iff, h.length_timestamps]

theorem follows_new {capacity : ℕ} {retxTimeout : UInt16} {fixedIsn : Option WrappingInt32}
    {random : UInt32} :
    (new (TcpSender.new capacity retxTimeout fixedIsn random)).Follows retxTimeout.toNat where
  initial_eq := rfl
  initial_lt := retxTimeout.toNat_lt.trans (by norm_num)
  windowSize_lt := by simp [new, TcpSender.new]
  counts := ⟨fun _ ↦ ⟨rfl, rfl⟩, fun h ↦ absurd rfl h⟩
  unsent := fun _ ↦ ⟨rfl, rfl, rfl⟩
  length_timestamps := rfl
  length_seqnos := rfl
  time_lt := by simp [new, TcpSender.new]
  elapsed := by simp [new, TcpSender.new]
  currRto := rfl
  consecRetrans := rfl
  doubled := by
    have hlt := retxTimeout.toNat_lt
    refine ⟨le_refl _, ?_⟩
    simp only [new, TcpSender.new, pow_zero, mul_one]
    omega

section send

/-- Sending keeps the first timestamp, or sets it when the timer starts. -/
theorem Follows.send (h : Follows initial ⟨s, timer⟩) (hfilled : Filled s s')
    (hcounts : s'.Counts) : Follows initial ⟨s', onSend timer s s'⟩ := by
  obtain ⟨segs, seqnos, hadded, hsegs, hseqnos, htimes, hnext⟩ := hfilled.added
  have hlenTimes : s.timestampsOutstanding.length = s.segmentsOutstanding.length :=
    h.length_timestamps
  have hlenSeqnos : s.seqnosAbsOutstanding.length = s.segmentsOutstanding.length := h.length_seqnos
  have htime : s.time < 2 ^ 64 := h.time_lt
  have hsame : (onSend timer s s').rto = timer.rto ∧ (onSend timer s s').count = timer.count := by
    rw [onSend]
    split_ifs <;> exact ⟨rfl, rfl⟩
  constructor
  case initial_eq => exact hfilled.initial_eq.trans h.initial_eq
  case initial_lt => exact h.initial_lt
  case windowSize_lt => exact hfilled.windowSize ▸ h.windowSize_lt
  case counts => exact hcounts
  case unsent =>
    intro hzero
    dsimp only at hzero
    have hnone : segs = [] := List.eq_nil_of_length_eq_zero (by omega)
    rw [hnone, List.length_nil, List.replicate_zero, List.append_nil] at htimes
    rw [htimes, hsame.1, hsame.2]
    exact h.unsent (show s.nextSeqno = 0 by omega)
  case length_timestamps => simp [htimes, hsegs, hlenTimes]
  case length_seqnos => simp [hseqnos, hsegs, hlenSeqnos, hadded]
  case time_lt => exact hfilled.time ▸ htime
  case elapsed =>
    intro first hfirst
    simp only [htimes, List.head?_append, Option.mem_def] at hfirst
    dsimp only
    rw [hfilled.time, onSend]
    cases hold : s.timestampsOutstanding with
    | cons first' rest =>
        have hne : ¬s.segmentsOutstanding = [] := by
          rw [h.outstanding_iff]
          simp [hold]
        rw [if_neg fun hc ↦ hne hc.1]
        refine h.elapsed first ?_
        rw [hold] at hfirst
        simpa [hold] using hfirst
    | nil =>
        have hnil : s.segmentsOutstanding = [] := h.outstanding_iff.mpr hold
        rw [hold] at hfirst htimes
        have hmem : first ∈ List.replicate segs.length s.time :=
          List.mem_of_mem_head? (by simpa using hfirst)
        obtain ⟨hsent, rfl⟩ := List.mem_replicate.mp hmem
        have hne : s'.segmentsOutstanding ≠ [] := by
          rw [hsegs]
          exact List.append_ne_nil_of_right_ne_nil _ (List.length_pos_iff.mp (by omega))
        rw [if_pos ⟨hnil, hne⟩]
        refine ⟨htime, ?_⟩
        simp [RetxTimer.restart, sub64]
  case currRto => exact hfilled.currRto.trans (h.currRto.trans hsame.1.symm)
  case consecRetrans =>
    rw [hsame.2]
    exact hfilled.consecRetrans.trans h.consecRetrans
  case doubled =>
    rw [onSend]
    split_ifs
    · exact h.doubled.restart
    · exact h.doubled

theorem onSend_self (timer : RetxTimer) (hsame : s'.segmentsOutstanding = s.segmentsOutstanding) :
    onSend timer s s' = timer := by
  rw [onSend, hsame]
  exact if_neg fun h ↦ h.2 h.1

/-- An operation that touches neither what is outstanding nor the clock. -/
theorem Follows.keep (h : Follows initial ⟨s, timer⟩) {out : List TcpSegment}
    {stream : ByteStream} (hread : stream.bytesReaded = s.stream.bytesReaded) :
    Follows initial ⟨{ s with segmentsOut := out, stream := stream },
      onSend timer s { s with segmentsOut := out, stream := stream }⟩ := by
  have hsame : onSend timer s { s with segmentsOut := out, stream := stream } = timer :=
    onSend_self timer rfl
  rw [hsame]
  exact
    { h with
      counts := ⟨fun hz ↦ hread ▸ h.counts.of_zero hz, fun hz ↦ hread ▸ h.counts.of_ne_zero hz⟩ }

end send

section ack

/-- After the SYN, the sender accepts exactly the acknowledgments of something new. -/
theorem acksNew_iff_not_useless (hcounts : s.Counts) (hnext : s.nextSeqno ≠ 0) :
    AcksNew s ackno ↔ ¬s.Useless (s.absoluteAckno ackno) :=
  (hcounts.not_useless_iff hnext _).symm

/-- An accepted acknowledgment that is not of something new came before the SYN. -/
theorem Follows.nextSeqno_eq_zero (h : Follows initial ⟨s, timer⟩)
    (huse : ¬s.Useless (s.absoluteAckno ackno)) (hnew : ¬AcksNew s ackno) : s.nextSeqno = 0 := by
  by_contra hne
  exact hnew ((acksNew_iff_not_useless h.counts hne).mpr huse)

/-- An accepted acknowledgment resets all timestamps left, and the timer with them. Before
the SYN nothing is outstanding, and the timer has not been touched. -/
theorem Follows.acceptAck (h : Follows initial ⟨s, timer⟩) (w : UInt16)
    (huse : ¬s.Useless (s.absoluteAckno ackno)) :
    Follows initial
      ⟨({ s with windowSize := w.toNat } : TcpSender).acceptAck (s.absoluteAckno ackno),
        onAck ⟨s, timer⟩ ackno⟩ := by
  have hlen := length_popAcked (s.absoluteAckno ackno) s.seqnosAbsOutstanding
    s.segmentsOutstanding s.timestampsOutstanding h.length_seqnos h.length_timestamps
  have hinitial : s.initialRetransmissionTimeout = initial := h.initial_eq
  have htimer : (onAck ⟨s, timer⟩ ackno).rto = initial ∧
      (onAck ⟨s, timer⟩ ackno).count = 0 ∧ (onAck ⟨s, timer⟩ ackno).Doubled initial := by
    rw [onAck]
    split_ifs with hnew
    · exact ⟨hinitial, rfl, hinitial ▸ timer.doubled_reset (hinitial ▸ h.initial_lt)⟩
    · obtain ⟨-, hrto, hcount⟩ := h.unsent (h.nextSeqno_eq_zero huse hnew)
      exact ⟨hrto, hcount, h.doubled⟩
  have hunsent : s.nextSeqno = 0 → (({ s with windowSize := w.toNat } : TcpSender).acceptAck
      (s.absoluteAckno ackno)).timestampsOutstanding = [] := by
    intro hzero
    have htimes : s.timestampsOutstanding = [] := (h.unsent hzero).1
    have hends : s.seqnosAbsOutstanding = [] := by
      rw [← List.length_eq_zero_iff, h.length_seqnos, List.length_eq_zero_iff]
      exact h.outstanding_iff.mpr htimes
    simp only [TcpSender.acceptAck, hends, popAcked, htimes, List.map_nil]
  constructor
  case initial_eq => exact hinitial
  case initial_lt => exact h.initial_lt
  case windowSize_lt => exact w.toNat_lt
  case counts => exact ⟨h.counts.of_zero, h.counts.of_ne_zero⟩
  case unsent => exact fun hzero ↦ ⟨hunsent hzero, htimer.1, htimer.2.1⟩
  case length_timestamps =>
    simp only [TcpSender.acceptAck, List.length_map]
    exact hlen.2
  case length_seqnos => exact hlen.1
  case time_lt => exact h.time_lt
  case elapsed =>
    intro first hfirst
    by_cases hnew : AcksNew s ackno
    · simp only [TcpSender.acceptAck, List.head?_map, Option.mem_def, Option.map_eq_some_iff]
        at hfirst
      obtain ⟨-, -, rfl⟩ := hfirst
      refine ⟨h.time_lt, ?_⟩
      rw [onAck, if_pos hnew]
      simp [TcpSender.acceptAck, RetxTimer.reset, sub64]
    · rw [hunsent (h.nextSeqno_eq_zero huse hnew)] at hfirst
      simp at hfirst
  case currRto => exact hinitial.trans htimer.1.symm
  case consecRetrans =>
    rw [htimer.2.1]
    rfl
  case doubled => exact htimer.2.2

theorem Follows.withWindow (h : Follows initial ⟨s, timer⟩) (w : UInt16) :
    Follows initial ⟨{ s with windowSize := w.toNat }, timer⟩ :=
  { h with
    windowSize_lt := w.toNat_lt
    counts := ⟨h.counts.of_zero, h.counts.of_ne_zero⟩ }

/-- A timer that was just reset starts at the present time. -/
theorem onSend_onAck (hnew : AcksNew s ackno) {s₁ : TcpSender} :
    onSend (onAck ⟨s, timer⟩ ackno) s₁ s' = onAck ⟨s, timer⟩ ackno := by
  rw [onSend, onAck, if_pos hnew]
  split_ifs <;> rfl

theorem Follows.ackReceived (h : Follows initial ⟨s, timer⟩) (ackno : WrappingInt32)
    (w : UInt16) :
    Follows initial ⟨s.ackReceived ackno w,
      onSend (onAck ⟨s, timer⟩ ackno) s (s.ackReceived ackno w)⟩ := by
  by_cases huse : s.Useless (s.absoluteAckno ackno)
  · have hsender : s.ackReceived ackno w = { s with windowSize := w.toNat } := if_pos huse
    have hnew : ¬AcksNew s ackno := by
      intro hnew
      have hpos : s.nextSeqno ≠ 0 := by
        have hle := hnew.2
        have hlt := hnew.1
        omega
      exact (acksNew_iff_not_useless h.counts hpos).mp hnew huse
    have hack : onAck ⟨s, timer⟩ ackno = timer := if_neg hnew
    have hsend : onSend timer s { s with windowSize := w.toNat } = timer := onSend_self timer rfl
    rw [hsender, hack, hsend]
    exact h.withWindow w
  · have hacc := h.acceptAck w huse
    set s₁ := ({ s with windowSize := w.toNat } : TcpSender).acceptAck (s.absoluteAckno ackno)
      with hs₁
    -- What was outstanding before the acknowledgment matters only before the SYN.
    have hsend (s' : TcpSender) : onSend (onAck ⟨s, timer⟩ ackno) s s' =
        onSend (onAck ⟨s, timer⟩ ackno) s₁ s' := by
      by_cases hnew : AcksNew s ackno
      · rw [onSend_onAck hnew, onSend_onAck hnew]
      · have hzero := h.nextSeqno_eq_zero huse hnew
        have hnil : s.segmentsOutstanding = [] := h.outstanding_iff.mpr (h.unsent hzero).1
        have hnil₁ : s₁.segmentsOutstanding = [] :=
          hacc.outstanding_iff.mpr (hacc.unsent hzero).1
        rw [onSend, onSend, hnil, hnil₁]
    rw [hsend]
    have hsender : s.ackReceived ackno w =
        if (s₁.windowSize > s₁.bytesFlying ∨ (s₁.windowSize = 0 ∧ s₁.bytesFlying = 0)) ∧
          s₁.finSent = false then s₁.fillWindow else s₁ := if_neg huse
    rw [hsender]
    split_ifs
    · have hwin₁ : s₁.windowSize < 2 ^ 16 := hacc.windowSize_lt
      exact hacc.send (filled_fillWindow (by omega)) (Counts.fillWindow hacc.counts (by omega))
    · rw [onSend_self _ rfl]
      exact hacc

end ack

section tick

variable {first : ℕ} {rest : List ℕ}

/-- The test that the sender makes is the test of the timer. -/
theorem Follows.timeout_iff_expired (h : Follows initial ⟨s, timer⟩)
    (htimes : s.timestampsOutstanding = first :: rest) (ms : ℕ) :
    sub64 (add64 s.time ms) first ≥ s.currRto ↔
      s.segmentsOutstanding ≠ [] ∧ (timer.elapse ms).Expired := by
  obtain ⟨hfirst, helapsed⟩ := h.elapsed first (by simp [htimes])
  have hrto : s.currRto = timer.rto := h.currRto
  have hstart : timer.start ≤ timer.now := h.doubled.1
  have hne : s.segmentsOutstanding ≠ [] := by
    intro hnil
    rw [h.outstanding_iff.mp hnil] at htimes
    exact absurd htimes (by simp)
  rw [sub64_add64 h.time_lt hfirst, helapsed, hrto, RetxTimer.Expired, RetxTimer.elapse]
  simp only [hne, ne_eq, not_false_eq_true, true_and]
  omega

/-- A tick pushes the oldest outstanding segment if the timer expires, and nothing else. -/
theorem Follows.segmentsOut_tick (h : t.Follows initial) (ms : ℕ) :
    (t.sender.tick ms).segmentsOut = t.sender.segmentsOut ++
      if t.sender.segmentsOutstanding ≠ [] ∧ (t.timer.elapse ms).Expired then
        t.sender.segmentsOutstanding.head?.toList
      else [] := by
  obtain ⟨s, timer⟩ := t
  dsimp only
  cases htimes : s.timestampsOutstanding with
  | nil =>
      have hnil : s.segmentsOutstanding = [] := h.outstanding_iff.mpr htimes
      simp [TcpSender.tick, htimes, hnil]
  | cons first rest =>
      have hiff := h.timeout_iff_expired htimes ms
      rw [tick_of_cons htimes]
      by_cases hexp : s.segmentsOutstanding ≠ [] ∧ (timer.elapse ms).Expired
      · rw [if_pos (hiff.mpr hexp), if_pos hexp]
      · rw [if_neg fun hc ↦ hexp (hiff.mp hc), if_neg hexp, List.append_nil]

theorem Follows.nextSeqno_ne_zero (h : Follows initial ⟨s, timer⟩)
    (htimes : s.timestampsOutstanding = first :: rest) : s.nextSeqno ≠ 0 := by
  intro hzero
  rw [(h.unsent hzero).1] at htimes
  exact absurd htimes (by simp)

/-- The timer expires: the oldest segment is sent again, and both clocks start anew. -/
theorem Follows.expire (h : Follows initial ⟨s, timer⟩)
    (htimes : s.timestampsOutstanding = first :: rest) (ms : ℕ) (out : List TcpSegment) :
    Follows initial
      ⟨{ s with
          time := add64 s.time ms
          segmentsOut := out
          timestampsOutstanding := add64 s.time ms :: rest
          consecRetrans := if s.windowSize ≠ 0 then (s.consecRetrans + 1) % 2 ^ 32
            else s.consecRetrans
          currRto := if s.windowSize ≠ 0 then mul64 s.currRto 2 else s.currRto },
        (timer.elapse ms).timeout s.windowSize⟩ := by
  have hlen := h.length_timestamps
  have hrto : s.currRto = timer.rto := h.currRto
  have hconsec : s.consecRetrans = timer.count % 2 ^ 32 := h.consecRetrans
  constructor
  case initial_eq => exact h.initial_eq
  case initial_lt => exact h.initial_lt
  case windowSize_lt => exact h.windowSize_lt
  case counts => exact ⟨h.counts.of_zero, h.counts.of_ne_zero⟩
  case unsent => exact fun hzero ↦ absurd hzero (h.nextSeqno_ne_zero htimes)
  case length_timestamps => simpa [htimes] using hlen
  case length_seqnos => exact h.length_seqnos
  case time_lt => exact add64_lt _ _
  case elapsed =>
    intro first' hmem
    obtain rfl : add64 s.time ms = first' := by simpa using hmem
    refine ⟨add64_lt _ _, ?_⟩
    rw [RetxTimer.timeout]
    split_ifs <;> simp [RetxTimer.restart, sub64]
  case currRto =>
    rw [RetxTimer.timeout]
    split_ifs
    · exact congrArg (mul64 · 2) hrto
    · exact hrto
  case consecRetrans =>
    rw [RetxTimer.timeout]
    split_ifs
    · simp only [hconsec, RetxTimer.elapse]
      omega
    · exact hconsec
  case doubled => exact (h.doubled.elapse ms).timeout _

/-- The timer runs on: both clocks move. -/
theorem Follows.elapse (h : Follows initial ⟨s, timer⟩)
    (htimes : s.timestampsOutstanding = first :: rest) (ms : ℕ) :
    Follows initial ⟨{ s with time := add64 s.time ms }, timer.elapse ms⟩ :=
  { h with
    counts := ⟨h.counts.of_zero, h.counts.of_ne_zero⟩
    unsent := fun hzero ↦ absurd hzero (h.nextSeqno_ne_zero htimes)
    time_lt := add64_lt _ _
    elapsed := by
      intro first' hmem
      obtain rfl : first = first' := by simpa [htimes] using hmem
      obtain ⟨hfirst, helapsed⟩ := h.elapsed first (by simp [htimes])
      refine ⟨hfirst, ?_⟩
      have hstart : timer.start ≤ timer.now := h.doubled.1
      simp only [sub64_add64 h.time_lt hfirst, helapsed, RetxTimer.elapse]
      omega
    doubled := h.doubled.elapse ms }

theorem Follows.tick (h : Follows initial ⟨s, timer⟩) (ms : ℕ) :
    Follows initial ⟨s.tick ms, onTick ⟨s, timer⟩ ms⟩ := by
  cases htimes : s.timestampsOutstanding with
  | nil =>
      have hnil : s.segmentsOutstanding = [] := h.outstanding_iff.mpr htimes
      have hsender : s.tick ms = s := by simp [TcpSender.tick, htimes]
      have htimer : onTick ⟨s, timer⟩ ms = timer.elapse ms := if_neg fun hc ↦ hc.1 hnil
      rw [hsender, htimer]
      exact
        { h with
          elapsed := by simp [htimes]
          doubled := h.doubled.elapse ms }
  | cons first rest =>
      have hiff := h.timeout_iff_expired htimes ms
      rw [tick_of_cons htimes, onTick]
      by_cases hexp : s.segmentsOutstanding ≠ [] ∧ (timer.elapse ms).Expired
      · rw [if_pos (hiff.mpr hexp), if_pos hexp]
        exact h.expire htimes ms _
      · rw [if_neg fun hc ↦ hexp (hiff.mp hc), if_neg hexp]
        exact h.elapse htimes ms

end tick

theorem follows_step (h : t.Follows initial) (op : Op) : (t.step op).Follows initial := by
  cases op with
  | write data => exact h.keep rfl
  | endInput => exact h.keep rfl
  | fillWindow =>
      have hwin := h.windowSize_lt
      exact h.send (filled_fillWindow (by omega)) (h.counts.fillWindow (by omega))
  | ackReceived ackno w => exact h.ackReceived ackno w
  | tick ms => exact h.tick ms
  | sendEmptySegment => exact h.keep rfl
  | takeSegment => exact h.keep rfl

theorem follows_run (capacity : ℕ) (retxTimeout : UInt16) (fixedIsn : Option WrappingInt32)
    (random : UInt32) (ops : List Op) :
    (run step (new (TcpSender.new capacity retxTimeout fixedIsn random)) ops).Follows
      retxTimeout.toNat :=
  run_invariant_of_step (I := Follows retxTimeout.toNat) (fun _ op h ↦ follows_step h op)
    follows_new ops

/-- In every run the sender is driven by one timer: a tick pushes a segment exactly when
something is outstanding and the timer expires, and then it pushes the oldest one alone. The
timeout and, modulo `2 ^ 32`, the number of consecutive retransmissions are the timer's. -/
theorem tick_refines_timer (capacity : ℕ) (retxTimeout : UInt16)
    (fixedIsn : Option WrappingInt32) (random : UInt32) (ops : List Op) :
    let t := run step (new (TcpSender.new capacity retxTimeout fixedIsn random)) ops
    (∀ ms,
      (t.sender.segmentsOutstanding ≠ [] ∧ (t.timer.elapse ms).Expired →
        ∃ oldest rest, t.sender.segmentsOutstanding = oldest :: rest ∧
          (t.sender.tick ms).segmentsOut = t.sender.segmentsOut ++ [oldest]) ∧
      (¬(t.sender.segmentsOutstanding ≠ [] ∧ (t.timer.elapse ms).Expired) →
        (t.sender.tick ms).segmentsOut = t.sender.segmentsOut)) ∧
    t.sender.consecutiveRetransmissions = t.timer.count % 2 ^ 32 ∧
    t.sender.currRto = t.timer.rto ∧
    t.timer.rto = retxTimeout.toNat * 2 ^ t.timer.count % 2 ^ 64 := by
  intro t
  have h : t.Follows retxTimeout.toNat := follows_run capacity retxTimeout fixedIsn random ops
  refine ⟨fun ms ↦ ⟨fun hexp ↦ ?_, fun hexp ↦ ?_⟩, h.consecRetrans, h.currRto, h.doubled.2⟩
  · have hout := h.segmentsOut_tick ms
    rw [if_pos hexp] at hout
    obtain ⟨oldest, rest, heq⟩ := List.exists_cons_of_ne_nil hexp.1
    refine ⟨oldest, rest, heq, ?_⟩
    rw [hout, heq]
    rfl
  · have hout := h.segmentsOut_tick ms
    rw [if_neg hexp, List.append_nil] at hout
    exact hout

/-- Ticks of almost one turn of the clock: every one of them expires the timer. -/
theorem count_of_long_ticks (h : t.Follows initial) (hout : t.sender.segmentsOutstanding ≠ [])
    (hwin : t.sender.windowSize ≠ 0) (hstart : t.timer.start = t.timer.now) (n : ℕ) :
    (run step t (List.replicate n (.tick (2 ^ 64 - 1)))).timer.count = t.timer.count + n := by
  induction n generalizing t with
  | zero => rfl
  | succ n ih =>
      have hexp : (t.timer.elapse (2 ^ 64 - 1)).Expired := by
        have hrto := h.doubled.2
        rw [RetxTimer.Expired, RetxTimer.elapse]
        dsimp only
        omega
      have htimer : (t.step (.tick (2 ^ 64 - 1))).timer =
          (t.timer.elapse (2 ^ 64 - 1)).timeout t.sender.windowSize := if_pos ⟨hout, hexp⟩
      rw [RetxTimer.timeout, if_pos hwin] at htimer
      obtain ⟨out, times, time, consec, rto, hsender, -, -⟩ := exists_tick t.sender (2 ^ 64 - 1)
      have hsender' : (t.step (.tick (2 ^ 64 - 1))).sender = _ := hsender
      rw [List.replicate_succ, run_cons, ih (follows_step h _)]
      · rw [htimer]
        simp only [RetxTimer.elapse]
        omega
      · rw [hsender']
        exact hout
      · rw [hsender']
        exact hwin
      · rw [htimer]

/-- Any multiple of `2 ^ 32` timeouts in a row brings the counter back to zero, and doubles
the timeout out of its 64 bits. -/
theorem counter_of_long_ticks (h : t.Follows initial) (hout : t.sender.segmentsOutstanding ≠ [])
    (hwin : t.sender.windowSize ≠ 0) (hstart : t.timer.start = t.timer.now)
    (hcount : t.timer.count = 0) {n : ℕ} (hdvd : 2 ^ 32 ∣ n) (hn : 64 ≤ n) :
    (run step t (List.replicate n (.tick (2 ^ 64 - 1)))).timer.count = n ∧
      (run step t (List.replicate n (.tick (2 ^ 64 - 1)))).sender.consecutiveRetransmissions = 0 ∧
      (run step t (List.replicate n (.tick (2 ^ 64 - 1)))).sender.currRto = 0 := by
  have hworn := run_invariant_of_step (I := Follows initial) (fun _ op h ↦ follows_step h op) h
    (List.replicate n (.tick (2 ^ 64 - 1)))
  have hlong := count_of_long_ticks h hout hwin hstart n
  rw [hcount, Nat.zero_add] at hlong
  refine ⟨hlong, ?_, ?_⟩
  · rw [TcpSender.consecutiveRetransmissions, hworn.consecRetrans, hlong]
    exact Nat.mod_eq_zero_of_dvd hdvd
  · rw [hworn.currRto, hworn.doubled.2, hlong]
    exact Nat.mod_eq_zero_of_dvd (Dvd.dvd.mul_left (pow_dvd_pow 2 hn) initial)

/-- After `2 ^ 32` timeouts in a row the sender's counter is back at zero, although the
timeout was doubled that often. A segment that waits for a whole turn of the 64-bit clock
is not sent again. -/
theorem retransmissions_wrap_around :
    let sent := run step (new (TcpSender.new 1 1000 (some ⟨0⟩) 0)) [.fillWindow]
    let worn := run step sent (List.replicate (2 ^ 32) (.tick (2 ^ 64 - 1)))
    let late := run step sent [.tick 500]
    (worn.timer.count = 2 ^ 32 ∧ worn.sender.consecutiveRetransmissions = 0 ∧
      worn.sender.currRto = 0) ∧
    (late.sender.segmentsOutstanding ≠ [] ∧
      late.timer.rto ≤ late.timer.now + (2 ^ 64 - 1) - late.timer.start ∧
      (late.sender.tick (2 ^ 64 - 1)).segmentsOut = late.sender.segmentsOut) :=
  ⟨counter_of_long_ticks (follows_run 1 1000 (some ⟨0⟩) 0 [.fillWindow]) (by decide) (by decide)
    (by decide) (by decide) (dvd_refl _) (by norm_num), by decide⟩

end Timed

end Sponge
