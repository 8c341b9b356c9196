import Mathlib.Data.List.Basic
import Mathlib.Tactic.Ring
import MonitorExport.Sender.Exchange

/-!
# Responses of a server

A reply is a frame with perhaps more bytes after it, or it is cut short, or it is foreign to the protocol. Metrics that
are sent over a stream come to what decoding the whole reply gives, and a stream tells a foreign reply from one that is
cut short. The frame is all that is looked at, and the parser of its body may be any: both ask the same one.
-/

namespace MonitorExport

/-! ## Frames -/

namespace Frame

variable {bytes body rest : Bytes} {count n : Nat}

@[simp] theorem length_writeNat (count n : Nat) : (writeNat count n).length = count := by
  induction count generalizing n with
  | zero => rfl
  | succ count ih => rw [writeNat, List.length_cons, ih]

theorem readNat_writeNat (h : n < 256 ^ count) : readNat (writeNat count n) = n := by
  induction count generalizing n with
  | zero =>
      rw [pow_zero, Nat.lt_one_iff] at h
      rw [h]
      rfl
  | succ count ih =>
      have hquot : n / 256 < 256 ^ count := Nat.div_lt_of_lt_mul (by rwa [← pow_succ'])
      have hlow : (UInt8.ofNat n).toNat = n % 256 := UInt8.toNat_ofNat'
      rw [writeNat, readNat, ih hquot, hlow, Nat.mod_add_div]

theorem writeNat_readNat (bytes : Bytes) : writeNat bytes.length (readNat bytes) = bytes := by
  induction bytes with
  | nil => rfl
  | cons b rest ih =>
      have hb : b.toNat < 256 := b.toNat_lt
      have hlow : UInt8.ofNat (b.toNat + 256 * readNat rest) = b := by
        apply UInt8.toNat_inj.mp
        rw [UInt8.toNat_ofNat']
        omega
      have hquot : (b.toNat + 256 * readNat rest) / 256 = readNat rest := by omega
      rw [readNat, List.length_cons, writeNat, hlow, hquot, ih]

/-- The number that stands where a frame has the length of its body. -/
def lengthAt (bytes : Bytes) : Nat := readNat ((bytes.drop header.length).take lengthSize)

/-- Whether bytes are enough for the start of a frame, and have another header or the length of a body that is too
long. -/
def Foreign (bytes : Bytes) : Prop :=
  prefixSize ≤ bytes.length ∧ (bytes.take header.length ≠ header ∨ maxLength < lengthAt bytes)

/-- Whether bytes end before the start of a frame does, or before the body that it announces. -/
def CutShort (bytes : Bytes) : Prop :=
  bytes.length < prefixSize ∨
    bytes.take header.length = header ∧ lengthAt bytes ≤ maxLength ∧ bytes.length < prefixSize + lengthAt bytes

theorem announced?_eq_some_iff {length : Nat} : announced? bytes = some length ↔
    prefixSize ≤ bytes.length ∧ bytes.take header.length = header ∧ lengthAt bytes ≤ maxLength ∧ lengthAt bytes = length := by
  unfold announced?
  rw [Option.ite_none_right_eq_some, ← lengthAt]
  simp only [Option.ite_none_right_eq_some, Option.some.injEq, and_assoc]

theorem announced?_take : announced? (bytes.take prefixSize) = announced? bytes := by
  by_cases hsize : prefixSize ≤ bytes.length
  · have htake : (bytes.take prefixSize).take header.length = bytes.take header.length := by
      rw [List.take_take, Nat.min_eq_left (by decide)]
    have hlength : lengthAt (bytes.take prefixSize) = lengthAt bytes := by
      rw [lengthAt, List.drop_take, List.take_take, Nat.min_eq_left (by decide)]
      rfl
    ext length
    rw [announced?_eq_some_iff, announced?_eq_some_iff, htake, hlength, List.length_take, Nat.min_eq_left hsize]
    simp only [le_refl, hsize]
  · rw [List.take_of_length_le (Nat.le_of_not_le hsize)]

theorem foreign_iff : Foreign bytes ↔ prefixSize ≤ bytes.length ∧ announced? bytes = none := by
  rw [Option.eq_none_iff_forall_ne_some]
  simp only [ne_eq, announced?_eq_some_iff]
  refine ⟨fun ⟨hsize, hforeign⟩ => ⟨hsize, fun _ ⟨_, hheader, hlength, _⟩ => ?_⟩, fun ⟨hsize, hnone⟩ => ⟨hsize, ?_⟩⟩
  · exact hforeign.elim (fun h => h hheader) (Nat.not_lt.mpr hlength)
  · by_cases hheader : bytes.take header.length = header
    · exact .inr (Nat.not_le.mp fun hlength => hnone _ ⟨hsize, hheader, hlength, rfl⟩)
    · exact .inl hheader

theorem cutShort_iff : CutShort bytes ↔ bytes.length < prefixSize ∨
    ∃ length, announced? bytes = some length ∧ bytes.length < prefixSize + length := by
  simp only [announced?_eq_some_iff]
  constructor
  · rintro (hshort | ⟨hheader, hlength, hshort⟩)
    · exact .inl hshort
    · rcases Nat.lt_or_ge bytes.length prefixSize with hsize | hsize
      · exact .inl hsize
      · exact .inr ⟨_, ⟨hsize, hheader, hlength, rfl⟩, hshort⟩
  · rintro (hshort | ⟨_, ⟨_, hheader, hlength, rfl⟩, hshort⟩)
    · exact .inl hshort
    · exact .inr ⟨hheader, hlength, hshort⟩

theorem length_write : (write body).length = prefixSize + body.length := by
  rw [write, List.length_append, List.length_append, length_writeNat]
  rfl

theorem drop_write : (write body ++ rest).drop prefixSize = body ++ rest := by
  have hsize : (header ++ writeNat lengthSize body.length).length = prefixSize := by
    rw [List.length_append, length_writeNat]
    rfl
  rw [write, List.append_assoc, ← hsize, List.drop_left]

theorem announced?_write (h : body.length ≤ maxLength) : announced? (write body ++ rest) = some body.length := by
  have hheader : (write body ++ rest).take header.length = header := by
    rw [write, List.append_assoc, List.append_assoc, List.take_left]
  have hlength : lengthAt (write body ++ rest) = body.length := by
    have hsize := length_writeNat lengthSize body.length
    rw [lengthAt, write, List.append_assoc, List.append_assoc, List.drop_left, List.take_left' hsize]
    exact readNat_writeNat (h.trans_lt (by decide))
  have hsize : prefixSize ≤ (write body ++ rest).length := by
    rw [List.length_append, length_write]
    omega
  exact announced?_eq_some_iff.mpr ⟨hsize, hheader, hlength ▸ h, hlength⟩

theorem body?_write (h : body.length ≤ maxLength) : body? (write body ++ rest) = some body := by
  have hsize : prefixSize + body.length ≤ (write body ++ rest).length := by
    rw [List.length_append, length_write]
    omega
  rw [body?, announced?_write h, Option.bind_some, if_pos hsize, drop_write, List.take_left]

/-- Bytes that announce a body and hold it are a frame, and more. -/
theorem eq_write_append {length : Nat} (h : announced? bytes = some length) (hsize : prefixSize + length ≤ bytes.length) :
    ∃ body rest, body.length = length ∧ length ≤ maxLength ∧ bytes = write body ++ rest := by
  obtain ⟨hsized, hheader, hmax, hlength⟩ := announced?_eq_some_iff.mp h
  have hbody : ((bytes.drop prefixSize).take length).length = length := by
    rw [List.length_take, List.length_drop]
    omega
  have hfield : ((bytes.drop header.length).take lengthSize).length = lengthSize := by
    have hsum : prefixSize = header.length + lengthSize := rfl
    rw [List.length_take, List.length_drop]
    omega
  have hnumber : writeNat lengthSize length = (bytes.drop header.length).take lengthSize := by
    have hwrite := writeNat_readNat ((bytes.drop header.length).take lengthSize)
    rw [hfield] at hwrite
    rwa [← lengthAt, hlength] at hwrite
  refine ⟨(bytes.drop prefixSize).take length, (bytes.drop prefixSize).drop length, hbody,
    hlength ▸ hmax, ?_⟩
  calc bytes = bytes.take header.length ++ bytes.drop header.length := (List.take_append_drop ..).symm
    _ = header ++ ((bytes.drop header.length).take lengthSize ++ (bytes.drop header.length).drop lengthSize) := by
        rw [hheader, List.take_append_drop]
    _ = header ++ (writeNat lengthSize length ++ bytes.drop prefixSize) := by
        rw [hnumber, List.drop_drop]
        rfl
    _ = write ((bytes.drop prefixSize).take length) ++ (bytes.drop prefixSize).drop length := by
        rw [write, hbody, List.append_assoc, List.append_assoc, List.take_append_drop]

/-- Every reply is foreign, or cut short, or a frame and more. -/
theorem foreign_or_cutShort_or_framed (bytes : Bytes) :
    Foreign bytes ∨ CutShort bytes ∨ ∃ body rest, body.length ≤ maxLength ∧ bytes = write body ++ rest := by
  rw [foreign_iff, cutShort_iff]
  rcases Nat.lt_or_ge bytes.length prefixSize with hshort | hsize
  · exact .inr (.inl (.inl hshort))
  · cases hlength : announced? bytes with
    | none => exact .inl ⟨hsize, rfl⟩
    | some length =>
        rcases Nat.lt_or_ge bytes.length (prefixSize + length) with hshort | hlong
        · exact .inr (.inl (.inr ⟨length, rfl, hshort⟩))
        · obtain ⟨body, rest, hbody, hmax, heq⟩ := eq_write_append hlength hlong
          exact .inr (.inr ⟨body, rest, hbody ▸ hmax, heq⟩)

theorem not_foreign_write (h : body.length ≤ maxLength) : ¬ Foreign (write body ++ rest) := by
  rw [foreign_iff, announced?_write h]
  exact fun hforeign => nomatch hforeign.2

theorem not_cutShort_write (h : body.length ≤ maxLength) : ¬ CutShort (write body ++ rest) := by
  rw [cutShort_iff, announced?_write h, List.length_append, length_write]
  rintro (hshort | ⟨length, heq, hshort⟩)
  · omega
  · cases heq
    omega

theorem Foreign.not_cutShort (h : Foreign bytes) : ¬ CutShort bytes := by
  rw [foreign_iff] at h
  rw [cutShort_iff, h.2]
  rintro (hshort | ⟨_, heq, _⟩)
  · exact absurd h.1 (Nat.not_le.mpr hshort)
  · cases heq

theorem body?_eq_none (h : Foreign bytes ∨ CutShort bytes) : body? bytes = none := by
  rw [foreign_iff, cutShort_iff] at h
  unfold body?
  rcases h with ⟨_, hnone⟩ | hshort | ⟨length, hsome, hshort⟩
  · rw [hnone]
    rfl
  · have hnone : announced? bytes = none := Option.eq_none_iff_forall_ne_some.mpr fun _ h =>
      Nat.not_le.mpr hshort (announced?_eq_some_iff.mp h).1
    rw [hnone]
    rfl
  · rw [hsome, Option.bind_some, if_neg (Nat.not_le.mpr hshort)]

end Frame

/-! ## Decoding and sending -/

namespace SenderResponse

open MonitorExport.Frame

variable {parse : Bytes → Option SenderResponse} {bytes body rest : Bytes}

theorem decodeBy_framed (h : body.length ≤ maxLength) : decodeBy parse (write body ++ rest) = ofBodyBy parse body := by
  rw [decodeBy, body?_write h]

theorem decodeBy_unframed (h : Foreign bytes ∨ CutShort bytes) : decodeBy parse bytes = .error .badHeader := by
  rw [decodeBy, body?_eq_none h]

theorem ofBodyBy_cases (parse : Bytes → Option SenderResponse) (body : Bytes) :
    (∃ r, ofBodyBy parse body = .ok r) ∨ ofBodyBy parse body = .error .malformed := by
  unfold ofBodyBy
  split
  · exact .inl ⟨_, rfl⟩
  · exact .inr rfl

end SenderResponse

namespace Metric

open MonitorExport.Frame SenderResponse

variable {parse : Bytes → Option SenderResponse} {s : Stream} {bytes body rest : Bytes} {metrics : List Metric} {now : Int}

/-- Why a read fails that finds too few bytes. -/
def shortRead : SenderError := .io "failed to fill whole buffer"

theorem run_bind {α β : Type} (step : Sending α) (next : α → Sending β) : (step >>= next) s = match step s with
    | (.ok a, s) => next a s
    | (.error e, s) => (.error e, s) := by
  simp only [bind, ExceptT.bind, ExceptT.mk, StateT.bind, ExceptT.bindCont]
  rcases step s with ⟨_ | _, _⟩ <;> rfl

theorem write_eq (h : s.fault = none) : Stream.write bytes s = (.ok (), { s with written := s.written ++ bytes }) := by
  rw [Stream.write, h]

theorem readExact_of_le {count : Nat} (h : count ≤ s.pending.length) : Stream.readExact count s =
    (.ok (s.pending.take count), { s with pending := s.pending.drop count }) := by
  rw [Stream.readExact, if_pos h]

theorem readExact_of_lt {count : Nat} (h : s.pending.length < count) :
    Stream.readExact count s = (.error shortRead, { s with pending := [] }) := by
  rw [Stream.readExact, if_neg (Nat.not_le.mpr h)]
  rfl

variable {written reply : Bytes}

theorem sendBy_framed (h : body.length ≤ maxLength) : sendBy parse metrics now ⟨written, write body ++ rest, none⟩ =
    ((ofBodyBy parse body).bind accepted, ⟨written ++ packet metrics now, rest, none⟩) := by
  have hsize : prefixSize ≤ (write body ++ rest).length := by
    rw [List.length_append, length_write]
    omega
  rw [sendBy, run_bind, write_eq rfl]
  dsimp only
  rw [run_bind, readExact_of_le hsize]
  dsimp only
  rw [announced?_take, announced?_write h, drop_write]
  dsimp only
  rw [run_bind, readExact_of_le (by rw [List.length_append]; omega)]
  dsimp only
  rw [List.take_left, List.drop_left]
  cases (ofBodyBy parse body).bind accepted <;> rfl

theorem sendBy_foreign (h : Foreign reply) : sendBy parse metrics now ⟨written, reply, none⟩ =
    (.error .badHeader, ⟨written ++ packet metrics now, reply.drop prefixSize, none⟩) := by
  obtain ⟨hsize, hnone⟩ := foreign_iff.mp h
  rw [sendBy, run_bind, write_eq rfl]
  dsimp only
  rw [run_bind, readExact_of_le hsize]
  dsimp only
  rw [announced?_take, hnone]
  rfl

theorem sendBy_cutShort (h : CutShort reply) : sendBy parse metrics now ⟨written, reply, none⟩ =
    (.error shortRead, ⟨written ++ packet metrics now, [], none⟩) := by
  rw [sendBy, run_bind, write_eq rfl]
  dsimp only
  rw [run_bind]
  rcases Nat.lt_or_ge reply.length prefixSize with hstart | hsize
  · rw [readExact_of_lt hstart]
  · obtain ⟨length, hsome, hshort⟩ := (cutShort_iff.mp h).resolve_left (Nat.not_lt.mpr hsize)
    rw [readExact_of_le hsize]
    dsimp only
    rw [announced?_take, hsome]
    dsimp only
    rw [run_bind, readExact_of_lt (by rw [List.length_drop]; omega)]

/-- How what comes of sending agrees with what decoding the reply gives. -/
structure Agree (reply : Bytes) (decoded : Except SenderError SenderResponse)
    (sent : Except SenderError (Option String)) : Prop where
  success : ∀ info, sent = .ok info ↔ decoded = .ok ⟨"success", info⟩
  rejected : ∀ reason, sent = .error (.rejected reason) ↔
    ∃ r, decoded = .ok r ∧ r.response ≠ "success" ∧ reason = r.info.getD "error from server"
  malformed : sent = .error .malformed ↔ decoded = .error .malformed
  remaining : (∃ r, decoded = .ok r) ∨ decoded = .error .malformed ∨ decoded = .error .badHeader
  badHeader : decoded = .error .badHeader ↔ Foreign reply ∨ CutShort reply
  foreign : sent = .error .badHeader ↔ Foreign reply
  cutShort : ∀ reason, sent = .error (.io reason) ↔ CutShort reply ∧ reason = "failed to fill whole buffer"

theorem agree_foreign (h : Foreign reply) : Agree reply (.error .badHeader) (.error .badHeader) := by
  constructor <;> simp [h, h.not_cutShort]

theorem agree_cutShort (h : CutShort reply) : Agree reply (.error .badHeader) (.error shortRead) := by
  have hforeign : ¬ Foreign reply := fun hforeign => hforeign.not_cutShort h
  constructor <;> simp [h, hforeign, shortRead, eq_comm]

theorem agree_framed (h : body.length ≤ maxLength) :
    Agree (write body ++ rest) (ofBodyBy parse body) ((ofBodyBy parse body).bind accepted) := by
  have hforeign : ¬ Foreign (write body ++ rest) := not_foreign_write h
  have hcut : ¬ CutShort (write body ++ rest) := not_cutShort_write h
  rcases ofBodyBy_cases parse body with ⟨⟨response, info⟩, hok⟩ | hmalformed
  · by_cases hsuccess : response = "success"
    · have haccepted : accepted ⟨response, info⟩ = .ok info := if_pos hsuccess
      rw [hok, Except.bind, haccepted]
      constructor <;> simp [hforeign, hcut, hsuccess]
    · have hrejected : accepted ⟨response, info⟩ = .error (.rejected (info.getD "error from server")) := if_neg hsuccess
      rw [hok, Except.bind, hrejected]
      constructor <;> simp [hforeign, hcut, hsuccess, eq_comm]
  · rw [hmalformed, Except.bind]
    constructor <;> simp [hforeign, hcut]

/-- Whatever parser of bodies is used: sending metrics to a server succeeds with what the server tells if decoding its
reply gives that the metrics were taken, and is rejected if it gives another response; both fail alike if the body of the
reply is malformed. In all other cases decoding fails for the header, and so does sending if the reply is foreign, while
it fails to read if the reply is cut short. Neither looks at what follows a frame, and sending leaves that to be read. -/
theorem send_agrees (parse : Bytes → Option SenderResponse) (metrics : List Metric) (now : Int) (written reply : Bytes) :
    Agree reply (decodeBy parse reply) (sendBy parse metrics now ⟨written, reply, none⟩).1 ∧
      ∀ body rest, body.length ≤ maxLength → reply = write body ++ rest →
        decodeBy parse reply = decodeBy parse (write body) ∧
        sendBy parse metrics now ⟨written, reply, none⟩ =
          ((sendBy parse metrics now ⟨written, write body, none⟩).1, ⟨written ++ packet metrics now, rest, none⟩) := by
  refine ⟨?_, fun body rest hbody heq => ?_⟩
  · rcases foreign_or_cutShort_or_framed reply with h | h | ⟨body, rest, hbody, rfl⟩
    · rw [decodeBy_unframed (.inl h), sendBy_foreign h]
      exact agree_foreign h
    · rw [decodeBy_unframed (.inr h), sendBy_cutShort h]
      exact agree_cutShort h
    · rw [decodeBy_framed hbody, sendBy_framed hbody]
      exact agree_framed hbody
  · have hdecode : decodeBy parse (write body ++ []) = _ := decodeBy_framed hbody
    have hsend : sendBy parse metrics now ⟨written, write body ++ [], none⟩ = _ := sendBy_framed hbody
    rw [List.append_nil] at hdecode hsend
    rw [heq, decodeBy_framed hbody, hdecode, sendBy_framed hbody, hsend]
    exact ⟨rfl, rfl⟩

/-- The body of a response to one metric that was taken. -/
def takenBody : Bytes := "\x7b\"response\":\"success\",\"info\":\"processed: 1\"\x7d".toUTF8.toList

theorem takenBody_parses : parse? takenBody = some ⟨"success", some "processed: 1"⟩ := by decide +kernel

theorem send_agrees_taken : takenBody.length ≤ maxLength ∧
    (send [] 5 ⟨[], write takenBody ++ [0x0A], none⟩).1 = .ok (some "processed: 1") ∧
    (send [] 5 ⟨[], write takenBody ++ [0x0A], none⟩).2.pending = [0x0A] := by
  have hlength : takenBody.length ≤ maxLength := by decide +kernel
  obtain ⟨hagree, hrest⟩ := send_agrees parse? [] 5 [] (write takenBody ++ [0x0A])
  obtain ⟨_, hsend⟩ := hrest takenBody [0x0A] hlength rfl
  refine ⟨hlength, (hagree.success _).mpr ?_, ?_⟩
  · rw [decodeBy_framed hlength, ofBodyBy, takenBody_parses]
  · rw [send, hsend]

end Metric

end MonitorExport
