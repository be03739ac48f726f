/-
This file is about what `Bridge2` gets from the waiter: the request arrives as it was sent, a reply
is taken in up to the size of the chip's ring, and only a Read, a ReadLn and a GetStt get a payload
back.
-/

import Frobio.Lemmanc.Bridge

namespace Frobio.Lemmanc

open Coms SlashPath Memory Frobio.Ring LemMan

/-! ### Bytes of the messages -/

theorem hiLo_toNat (w : UInt16) : hiLo (hi w.toNat) (lo w.toNat) = w.toNat := by
  rw [hiLo_hi_lo]
  exact Nat.mod_eq_of_lt w.toNat_lt

theorem newLMRegs_bytes (r : Regs) (rest : Text) : newLMRegs (r.bytes ++ rest) = r.words := by
  show LMRegs.mk r.rcc r.ra r.rb r.rdp (hiLo (hi r.rx.toNat) (lo r.rx.toNat))
    (hiLo (hi r.ry.toNat) (lo r.ry.toNat)) (hiLo (hi r.ru.toNat) (lo r.ru.toNat))
    (hiLo (hi r.rpc.toNat) (lo r.rpc.toNat)) = _
  rw [hiLo_toNat, hiLo_toNat, hiLo_toNat, hiLo_toNat]
  rfl

/-- The registers come back as they were sent. -/
theorem ofBytes_words (r : Regs) (rest : Text) :
    Regs.ofBytes (r.words.writeBytes ++ rest) = r := by
  rw [Regs.ofBytes, show r.words.writeBytes = r.bytes from rfl, newLMRegs_bytes]
  simp [Regs.words]

section

variable (op : UInt8) (regs : Regs) (payload : Text)

theorem regsOf_requestBody : regsOf (requestBody op regs payload) = regs.words :=
  newLMRegs_bytes regs _

theorem paylen_requestBody : paylen (requestBody op regs payload) = payload.length % 65536 :=
  hiLo_hi_lo _

theorem drop_requestBody : (requestBody op regs payload).drop headerLen = payload := rfl

theorem length_requestBody :
    (requestBody op regs payload).length = headerLen + payload.length := by
  show payload.length + 15 = _
  exact Nat.add_comm _ _

/-- The waiter gets the request as it was sent. -/
theorem waiter_wire (host : Host) (info : FileInfo) (g : Globals) (pd : UInt16)
    (fits : headerLen + payload.length < 65536) :
    waiter host info g (wire pd op regs payload) =
      ((doLemMan host g ⟨requestBody op regs payload, info⟩ pd.toNat).globals,
        (doLemMan host g ⟨requestBody op regs payload, info⟩ pd.toNat).reply.map fun reply =>
          (newQuint CMD_LEMMAN_REPLY reply.bytes.length pd.toNat).bytes ++ reply.bytes) := by
  have whole : readFull (headerLen + payload.length) (requestBody op regs payload) =
      some (requestBody op regs payload, []) := by
    have read := readFull_append (length_requestBody op regs payload) []
    rwa [List.append_nil] at read
  rw [waiter, wire, readQuint_bytes]
  dsimp only
  rw [n_newQuint, Nat.mod_eq_of_lt fits, whole, p_newQuint, Nat.mod_eq_of_lt pd.toNat_lt]

/-- The name that the waiter takes out of the request is one in the payload. -/
theorem nameOf_requestBody (fits : payload.length < 65536) :
    nameOf (requestBody op regs payload) = extractName payload := by
  rw [nameOf, paylen_requestBody, Nat.mod_eq_of_lt fits, length_requestBody,
    if_pos (Nat.le_refl _), drop_requestBody, List.take_length]

end

/-! ### Replies -/

section

variable (kernel : Kernel) (op : UInt8) (regs : Regs) (pd : Nat) (m : Machine) {reply : Reply}

/-- The message of a reply. -/
def replyWire (reply : Reply) (pd : Nat) : Text :=
  (newQuint CMD_LEMMAN_REPLY reply.bytes.length pd).bytes ++ reply.bytes

theorem length_bytes (reply : Reply) :
    reply.bytes.length = headerLen + reply.payload.length := by
  show reply.payload.length + 15 = _
  exact Nat.add_comm _ _

/-- The struct `reply`, as it is received. -/
def replyHead (reply : Reply) (pd : Nat) : Text :=
  (newQuint CMD_LEMMAN_REPLY reply.bytes.length pd).bytes ++
    (reply.status :: (reply.regs.writeBytes ++
      [hi reply.payload.length, lo reply.payload.length]))

theorem tcpRecvData_head (reply : Reply) :
    tcpRecvData replySize (replyWire reply pd) = some (replyHead reply pd, reply.payload) := by
  rw [tcpRecvData, if_neg (by decide)]
  exact readFull_append (show (replyHead reply pd).length = replySize from rfl) reply.payload

theorem size_head (fits : reply.payload.length < 65536) :
    hiLo ((replyHead reply pd).getD 18 0) ((replyHead reply pd).getD 19 0) =
      reply.payload.length := by
  show hiLo (hi reply.payload.length) (lo reply.payload.length) = _
  rw [hiLo_hi_lo, Nat.mod_eq_of_lt fits]

theorem n_head (fits : headerLen + reply.payload.length < 65536) :
    ¬hiLo ((replyHead reply pd).getD 1 0) ((replyHead reply pd).getD 2 0) < headerLen := by
  show ¬hiLo (hi reply.bytes.length) (lo reply.bytes.length) < _
  rw [hiLo_hi_lo, length_bytes, Nat.mod_eq_of_lt fits]
  omega

/-- A reply without a payload. -/
theorem settle_of_nil (bare : reply.payload = []) :
    settle kernel op regs (replyWire reply pd) m =
      (m, .returned reply.status (.ofBytes (reply.regs.writeBytes ++ [0, 0]))) := by
  have short : headerLen + reply.payload.length < 65536 := by
    rw [bare]
    decide
  have empty : reply.payload.length = 0 := by rw [bare, List.length_nil]
  rw [settle, tcpRecvData_head]
  dsimp only
  rw [if_neg (n_head pd short), size_head pd (by omega), if_pos empty]
  show (m, Result.returned reply.status (.ofBytes (reply.regs.writeBytes ++
    [hi reply.payload.length, lo reply.payload.length]))) = _
  rw [empty]
  rfl

/-- A payload that the ring has no room for is waited for in vain. -/
theorem settle_of_long (long : RING_SIZE < reply.payload.length)
    (fits : reply.payload.length < 65536) :
    settle kernel op regs (replyWire reply pd) m = (m, .stuck) := by
  rw [settle, tcpRecvData_head]
  dsimp only
  split
  · rfl
  · rw [size_head pd fits, if_neg (by unfold RING_SIZE at long; omega), tcpRecvData, if_pos long]

/-- A payload that is received, and what is done with it. -/
theorem settle_of_fits (filled : reply.payload ≠ []) (fits : reply.payload.length ≤ RING_SIZE)
    {e : UInt8} {m' : Machine} (delivered : deliver kernel op regs reply.payload.length
      (m.put .system m.buffer.toNat reply.payload) = (e, m')) :
    settle kernel op regs (replyWire reply pd) m =
      (m', if e ≠ 0 then .returned e regs
        else .returned reply.status (.ofBytes (reply.regs.writeBytes ++
          [hi reply.payload.length, lo reply.payload.length]))) := by
  have small : reply.payload.length ≤ 2048 := fits
  have long := List.length_pos_iff.mpr filled
  have read : readFull reply.payload.length reply.payload = some (reply.payload, []) := by
    have appended := readFull_append (rfl : reply.payload.length = _) []
    rwa [List.append_nil] at appended
  rw [settle, tcpRecvData_head]
  dsimp only
  rw [if_neg (n_head pd (by unfold headerLen; omega)), size_head pd (by omega), if_neg (by omega),
    tcpRecvData, if_neg (by unfold RING_SIZE; omega), read]
  dsimp only
  rw [delivered]
  dsimp only
  split
  · rfl
  · rfl

end

/-! ### What the waiter replies -/

/-- The outcome is a reply with no payload, if it is one. -/
def Bare (outcome : Outcome) : Prop :=
  ∀ reply, outcome.reply = some reply → reply.payload = []

theorem bare_panicked (g : Globals) (effects : List Effect) : Bare (panicked g effects) :=
  fun _ impossible => by cases impossible

theorem bare_answer (g : Globals) (status : UInt8) (regs : LMRegs) (effects : List Effect) :
    Bare (answer g status regs [] effects) := by
  intro reply same
  obtain rfl := Option.some_inj.mp same
  rfl

theorem bare_refuse (g : Globals) (regs : LMRegs) (effects : List Effect) :
    Bare (refuse g regs effects) :=
  bare_answer _ _ _ _

theorem bare_withName (g : Globals) (input : Text) {handle : Text → Outcome}
    (each : ∀ name, Bare (handle name)) : Bare (withName g input handle) := by
  unfold withName
  split
  · exact bare_panicked _ _
  · exact each _

theorem bare_lmOpen (host : Host) (g : Globals) (pd : Nat) (regs : LMRegs) (mode : UInt8)
    (name : Text) (create : Bool) : Bare (lmOpen host g pd regs mode name create) := by
  unfold lmOpen createPath openPath opened
  repeat' split
  all_goals first
    | exact bare_refuse _ _ _
    | exact bare_answer _ _ _ _

theorem bare_lmDelete (host : Host) (g : Globals) (regs : LMRegs) (name : Text) :
    Bare (lmDelete host g regs name) := by
  unfold lmDelete
  split
  · exact bare_refuse _ _ _
  · exact bare_answer _ _ _ _

theorem bare_lmSeek (g : Globals) (pd : Nat) (regs : LMRegs) : Bare (lmSeek g pd regs) := by
  unfold lmSeek
  split
  · exact bare_answer _ _ _ _
  · exact bare_answer _ _ _ _

theorem bare_lmWrite (g : Globals) (pd : Nat) (regs : LMRegs) (payIn : Text) :
    Bare (lmWrite g pd regs payIn) := by
  unfold lmWrite
  repeat' split
  all_goals first
    | exact bare_refuse _ _ _
    | exact bare_answer _ _ _ _
    | exact bare_panicked _ _

theorem bare_lmClose (g : Globals) (pd : Nat) (regs : LMRegs) : Bare (lmClose g pd regs) := by
  unfold lmClose
  split
  · exact bare_answer _ _ _ _
  · exact bare_answer _ _ _ _

/-- Only a Read, a ReadLn and a GetStt get a payload back. -/
theorem bare_doLemMan (host : Host) (g : Globals) (request : Request) (pd : Nat)
    (quiet : (opOf request.input).toNat ∉ [7, 9, 11]) :
    Bare (doLemMan host g request pd) := by
  unfold doLemMan
  dsimp only
  split
  · exact bare_panicked _ _
  · split
    case h_7 is => exact absurd (is ▸ quiet) (by decide)
    case h_9 is => exact absurd (is ▸ quiet) (by decide)
    case h_11 is => exact absurd (is ▸ quiet) (by decide)
    case h_1 => exact bare_withName _ _ fun name => bare_lmOpen _ _ _ _ _ _ _
    case h_2 => exact bare_withName _ _ fun name => bare_lmOpen _ _ _ _ _ _ _
    case h_3 => exact bare_withName _ _ fun name => bare_refuse _ _ _
    case h_4 => exact bare_withName _ _ fun name => bare_answer _ _ _ _
    case h_5 => exact bare_withName _ _ fun name => bare_lmDelete _ _ _ _
    case h_6 => exact bare_lmSeek _ _ _
    case h_8 => exact bare_lmWrite _ _ _ _
    case h_10 => exact bare_lmWrite _ _ _ _
    case h_12 => exact bare_lmClose _ _ _
    case h_13 =>
      split
      · exact bare_panicked _ _
      · exact bare_refuse _ _ _

/-- A GetStt gets as many bytes back as the low byte of Y says, and only if it asks for the
descriptor of a file. -/
theorem payload_lmGetStt {host : Host} {g : Globals} {pd : Nat} {info : FileInfo} {regs : LMRegs}
    {reply : Reply} (replied : (lmGetStt host g pd info regs).reply = some reply) :
    reply.payload = [] ∨ regs.rb = 0x20 ∧ reply.payload.length = regs.ry % 256 := by
  unfold lmGetStt at replied
  split at replied
  · exact .inl (bare_answer _ _ _ _ _ replied)
  · split at replied
    · rename_i descriptor
      refine .inr ⟨descriptor, ?_⟩
      unfold fdInf at replied
      dsimp only at replied
      split at replied
      · cases replied
      · split at replied
        · cases replied
        · split at replied
          · cases replied
          · split at replied
            · cases replied
            · obtain rfl := Option.some_inj.mp replied
              dsimp only
              rw [List.length_take, List.length_append, List.length_replicate]
              have sixteen : ∀ node size, (fileDescriptor info node size).length = 16 :=
                fun _ _ => rfl
              rw [sixteen]
              omega
    · exact .inl (bare_answer _ _ _ _ _ replied)

/-- What LMRead replies. -/
inductive ReadReply (g : Globals) (pd : Nat) (regs : LMRegs) (linely : Bool) : Reply → Prop
  | refused (reply : Reply) (bare : reply.payload = []) (error : reply.status ≠ 0) :
      ReadReply g pd regs linely reply
  | given (p : LMPath) (bytes : Text) (found : g.lmPaths pd = some p) (more : p.offset < p.size)
      (read : readPath g p (min regs.ry (p.size - p.offset)) = some bytes) :
      ReadReply g pd regs linely ⟨0, regs, if linely then chopLine bytes else bytes⟩

theorem readReply_lmRead {g : Globals} {pd : Nat} {regs : LMRegs} {linely : Bool} {reply : Reply}
    (numbered : Numbered g.prevLemmaError)
    (replied : (lmRead g pd regs linely).reply = some reply) :
    ReadReply g pd regs linely reply := by
  unfold lmRead at replied
  split at replied
  · obtain rfl := Option.some_inj.mp replied
    exact .refused _ rfl (show E_BPNum ≠ 0 by decide)
  · rename_i p found
    split at replied
    · obtain rfl := Option.some_inj.mp replied
      exact .refused _ rfl (show E_EOF ≠ 0 by decide)
    · rename_i more
      split at replied
      · obtain rfl := Option.some_inj.mp replied
        exact .refused _ rfl (lemmaError_ne numbered).1
      · rename_i bytes read
        obtain rfl := Option.some_inj.mp replied
        exact .given p bytes found (Nat.not_le.mp more) read

/-- The waiter lets the client write to the path. -/
def Accepts (g : Globals) (pd : Nat) : Prop :=
  ∃ p, g.lmPaths pd = some p ∧ p.mode &&& 0x02 = 0x02 ∧ p.mode &&& 0x80 = 0 ∧ p.isDir = false ∧
    ∃ file, p.osFile = some (file, true)

/-- A reply to a Write has the registers of the request, and is a success if the client may
write. -/
theorem status_lmWrite {g : Globals} {pd : Nat} {regs : LMRegs} {payIn : Text} {reply : Reply}
    (numbered : Numbered g.prevLemmaError)
    (replied : (lmWrite g pd regs payIn).reply = some reply) :
    reply.regs = regs ∧ (reply.status = 0 ↔ Accepts g pd) := by
  have refused : ∀ {effects}, (refuse g regs effects).reply = some reply → ¬Accepts g pd →
      reply.regs = regs ∧ (reply.status = 0 ↔ Accepts g pd) := by
    intro effects same not
    obtain rfl := Option.some_inj.mp same
    exact ⟨rfl, fun okay => ((lemmaError_ne numbered).1 okay).elim, fun accepts => (not accepts).elim⟩
  unfold lmWrite at replied
  split at replied
  · rename_i missing
    obtain rfl := Option.some_inj.mp replied
    refine ⟨rfl, fun okay => absurd okay (show E_BPNum ≠ 0 by decide), ?_⟩
    rintro ⟨p, found, -⟩
    rw [missing] at found
    cases found
  · rename_i p found
    have same : ∀ {p'}, g.lmPaths pd = some p' → p' = p := fun found' =>
      Option.some_inj.mp (found'.symm.trans found)
    split at replied
    · rename_i unwritable
      refine refused replied ?_
      rintro ⟨p', found', writable, -⟩
      exact unwritable (same found' ▸ writable)
    · rename_i writable
      split at replied
      · rename_i directory
        refine refused replied ?_
        rintro ⟨p', found', -, plain, -⟩
        exact directory (same found' ▸ plain)
      · rename_i plain
        split at replied
        · rename_i directory
          refine refused replied ?_
          rintro ⟨p', found', -, -, regular, -⟩
          rw [same found', directory] at regular
          cases regular
        · rename_i regular
          split at replied
          · cases replied
          · rename_i file handle
            refine refused replied ?_
            rintro ⟨p', found', -, -, -, file', handle'⟩
            rw [same found', handle, Option.some_inj, Prod.mk.injEq] at handle'
            cases handle'.2
          · rename_i file handle
            obtain rfl := Option.some_inj.mp replied
            exact ⟨rfl, fun _ => ⟨p, found, Classical.not_not.mp writable,
              Classical.not_not.mp plain, Bool.eq_false_iff.mpr regular, file, handle⟩, fun _ => rfl⟩

theorem reply_of_accepts {g : Globals} {pd : Nat} (accepts : Accepts g pd) (regs : LMRegs)
    (payIn : Text) : (lmWrite g pd regs payIn).reply = some ⟨0, regs, []⟩ := by
  obtain ⟨p, found, writable, plain, regular, file, handle⟩ := accepts
  rw [lmWrite, found]
  dsimp only
  rw [if_neg (not_not_intro writable), if_neg (not_not_intro plain), if_neg (by rw [regular]; simp),
    handle]
  rfl

end Frobio.Lemmanc
