import Modbus.Response.Basic

/-!
# Requests and responses as bytes

Both are written as their code and their payload, and any bytes but none can be read as either. The
two differ in what is written: a response is written as it came, whatever is wrong with it, and a
request only if it is valid. `Request.isValid_iff` says in numbers what that takes, with the least
payload of each assigned code in the table `leastPayloads`.

`bytes_round_trip_both_ways` puts reading and writing together in both orders.
-/

namespace Modbus

/-! ## Valid requests -/

/-- The assigned function codes, each with the least payload that a request for it can have. -/
def leastPayloads : List (Nat × Nat) :=
  [(1, 4), (2, 4), (3, 4), (4, 4), (5, 4), (6, 4), (7, 0), (8, 4), (11, 0), (12, 0), (15, 6),
    (16, 7), (17, 0), (20, 8), (21, 10), (22, 6), (23, 11), (24, 2), (43, 2)]

theorem mem_leastPayloads_iff {entry : Nat × Nat} :
    entry ∈ leastPayloads ↔ ∃ c : FunctionCode, (c.toByte.toNat, c.requestMinimum) = entry := by
  have htable : leastPayloads =
      FunctionCode.all.map fun c => (c.toByte.toNat, c.requestMinimum) := by decide
  rw [htable, List.mem_map]
  constructor
  · intro ⟨c, _, hc⟩
    exact ⟨c, hc⟩
  · intro ⟨c, hc⟩
    exact ⟨c, c.mem_all, hc⟩

namespace Request

variable {q : Request} {bytes : List UInt8}

/-- A payload is long enough if it is for every entry of the table with the code of the request. For
a code that is not assigned there is none. -/
theorem minimum_le_iff {size : Nat} :
    q.minimum ≤ size ↔ ∀ entry ∈ leastPayloads, q.code.toNat = entry.1 → entry.2 ≤ size := by
  unfold minimum
  cases hfunction : q.function? with
  | some c =>
    have hcode : c.toByte = q.code := FunctionCode.ofByte?_eq_some_iff.mp hfunction
    constructor
    · intro hmin entry hentry hsame
      obtain ⟨c', rfl⟩ := mem_leastPayloads_iff.mp hentry
      have hc : c' = c := FunctionCode.toByte_inj.mp (UInt8.toNat_inj.mp (hsame.symm.trans
        (congrArg UInt8.toNat hcode.symm)))
      exact hc ▸ hmin
    · intro hentries
      exact hentries _ (mem_leastPayloads_iff.mpr ⟨c, rfl⟩) (by rw [hcode])
  | none =>
    have hnone (c : FunctionCode) : c.toByte ≠ q.code := by
      intro hcode
      rw [function?, FunctionCode.ofByte?_eq_some_iff.mpr hcode] at hfunction
      cases hfunction
    refine iff_of_true (Nat.zero_le size) fun entry hentry hsame => ?_
    obtain ⟨c, rfl⟩ := mem_leastPayloads_iff.mp hentry
    exact absurd (UInt8.toNat_inj.mp hsame.symm) (hnone c)

/-- What makes a request valid, in numbers. -/
theorem isValid_iff :
    q.IsValid ↔ 1 ≤ q.code.toNat ∧ q.code.toNat ≤ 127 ∧ q.data.length ≤ 252 ∧
      ∀ entry ∈ leastPayloads, q.code.toNat = entry.1 → entry.2 ≤ q.data.length := by
  have hpos : 0 < q.code ↔ 1 ≤ q.code.toNat := UInt8.lt_iff_toNat_lt
  have hpublic : q.code < 0x80 ↔ q.code.toNat ≤ 127 :=
    UInt8.lt_iff_toNat_lt.trans Nat.lt_succ_iff
  rw [IsValid, hpos, hpublic, minimum_le_iff, maxPayload]
  exact and_congr_right' (and_congr_right' and_comm)

/-! ## Reading and writing -/

theorem toBytes_eq_ok_iff : q.toBytes = .ok bytes ↔ q.IsValid ∧ bytes = q.code :: q.data := by
  unfold toBytes
  split
  · rename_i hvalid
    rw [Except.ok.injEq, and_iff_right hvalid, eq_comm]
  · rename_i hinvalid
    exact iff_of_false nofun fun h => hinvalid h.1

theorem ofBytes_eq_error_iff : (∃ reason, ofBytes bytes = .error reason) ↔ bytes = [] := by
  cases bytes with
  | nil => exact iff_of_true ⟨_, rfl⟩ rfl
  | cons code data => exact iff_of_false nofun nofun

end Request

namespace Response

variable {bytes : List UInt8}

theorem ofBytes_eq_error_iff : (∃ reason, ofBytes bytes = .error reason) ↔ bytes = [] := by
  cases bytes with
  | nil => exact iff_of_true ⟨_, rfl⟩ rfl
  | cons rawCode data => exact iff_of_false nofun nofun

end Response

/-- Every response can be written, and what is written is read as the same response; any bytes but
none are read as a response, and written as the same bytes. A request can be written exactly if it
is valid, and is then read as the same request; any bytes but none are read as a request, which is
written as the same bytes unless it is refused for not being valid. -/
theorem bytes_round_trip_both_ways :
    (∀ r : Response, Response.ofBytes r.toBytes = .ok r) ∧
    (∀ bytes : List UInt8, bytes ≠ [] →
      ∃ r : Response, Response.ofBytes bytes = .ok r ∧ r.toBytes = bytes) ∧
    (∀ q : Request,
      ((∃ bytes, q.toBytes = .ok bytes) ↔ q.IsValid) ∧
      (q.IsValid ↔ 1 ≤ q.code.toNat ∧ q.code.toNat ≤ 127 ∧ q.data.length ≤ 252 ∧
        ∀ entry ∈ leastPayloads, q.code.toNat = entry.1 → entry.2 ≤ q.data.length) ∧
      ∀ bytes, q.toBytes = .ok bytes → Request.ofBytes bytes = .ok q) ∧
    (∀ bytes : List UInt8, bytes ≠ [] →
      ∃ q : Request, Request.ofBytes bytes = .ok q ∧
        (q.toBytes = .ok bytes ∨ ¬ q.IsValid ∧ q.toBytes = .error .invalidRequest)) ∧
    (∀ bytes : List UInt8,
      ((∃ reason, Response.ofBytes bytes = .error reason) ↔ bytes = []) ∧
      ((∃ reason, Request.ofBytes bytes = .error reason) ↔ bytes = [])) := by
  refine ⟨Response.ofBytes_toBytes, fun bytes hbytes => ?_,
    fun q => ⟨?_, Request.isValid_iff, fun bytes => Request.ofBytes_toBytes⟩,
    fun bytes hbytes => ?_,
    fun bytes => ⟨Response.ofBytes_eq_error_iff, Request.ofBytes_eq_error_iff⟩⟩
  · cases hread : Response.ofBytes bytes with
    | error reason => exact absurd (Response.ofBytes_eq_error_iff.mp ⟨reason, hread⟩) hbytes
    | ok r => exact ⟨r, rfl, Response.toBytes_of_ofBytes hread⟩
  · simp only [Request.toBytes_eq_ok_iff, exists_and_left, exists_eq, and_true]
  · cases hread : Request.ofBytes bytes with
    | error reason => exact absurd (Request.ofBytes_eq_error_iff.mp ⟨reason, hread⟩) hbytes
    | ok q =>
      by_cases hvalid : q.IsValid
      · exact ⟨q, rfl, .inl (Request.toBytes_of_ofBytes hread hvalid)⟩
      · exact ⟨q, rfl, .inr ⟨hvalid, if_neg hvalid⟩⟩

/-- An exception with a byte too many is kept as a response and refused as a request, and a request
for an unassigned code needs no payload. -/
theorem exception_round_trips_as_response_only :
    (∃ r : Response, Response.ofBytes [0x81, 2, 7] = .ok r ∧ r.toBytes = [0x81, 2, 7]) ∧
      (∃ q : Request, Request.ofBytes [0x81, 2, 7] = .ok q ∧ q.toBytes = .error .invalidRequest) ∧
      Request.toBytes ⟨0x41, []⟩ = .ok [0x41] ∧ Request.ofBytes [0x41] = .ok ⟨0x41, []⟩ := by
  obtain ⟨-, hresponse, hrequest, hread, -⟩ := bytes_round_trip_both_ways
  obtain ⟨q, hq, hwritten | ⟨-, hrefused⟩⟩ := hread [0x81, 2, 7] nofun
  · have hvalid := (Request.toBytes_eq_ok_iff.mp hwritten).1
    cases hq
    exact absurd hvalid (by decide)
  · have hunassigned : Request.toBytes ⟨0x41, []⟩ = .ok [0x41] :=
      Request.toBytes_of_isValid (by decide)
    exact ⟨hresponse _ nofun, ⟨q, hq, hrefused⟩, hunassigned,
      (hrequest ⟨0x41, []⟩).2.2 _ hunassigned⟩

end Modbus
