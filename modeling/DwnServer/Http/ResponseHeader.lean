import DwnServer.Http.PostRoot
import DwnServer.Js.JsonRoundTrip

/-!
# The `dwn-response` header

A reply with a data stream goes to the client as JSON text in a header. `JSON.stringify` escapes
control characters and lone surrogates and leaves everything else as it is, and a header takes
only Latin-1 without DEL.
-/
namespace DwnServer

/-- `setHeader`: Node sends a value that it accepts as Latin-1. -/
def setHeader (value : JsString) : Option (List UInt8) :=
  if isHeaderValue value then some (value.map UInt16.toUInt8) else none

/-- The value of a header as a client reads it. -/
def headerText (bytes : List UInt8) : JsString := bytes.map UInt8.toUInt16

theorem toNat_of_isHeaderUnit {u : UInt16} (h : isHeaderUnit u = true) : u.toNat ≤ 0xff := by
  have hunit : u = unit '\t' ∨ (0x20 ≤ u.toNat ∧ u.toNat ≤ 0xff) ∧ u.toNat ≠ 0x7f := by
    simpa [isHeaderUnit] using h
  rcases hunit with rfl | ⟨hlatin, -⟩
  · decide
  · exact hlatin.2

theorem headerText_setHeader {value : JsString} {bytes : List UInt8}
    (h : setHeader value = some bytes) : headerText bytes = value := by
  obtain ⟨hvalue, hbytes⟩ := Option.ite_none_right_eq_some.mp h
  rw [← Option.some.inj hbytes, headerText, List.map_map]
  have hunits : ∀ u ∈ value, (UInt8.toUInt16 ∘ UInt16.toUInt8) u = u := by
    intro u hu
    have hlatin := toNat_of_isHeaderUnit (List.all_eq_true.mp hvalue u hu)
    refine UInt16.toNat_inj.mp ?_
    rw [Function.comp_apply, UInt8.toNat_toUInt16, UInt16.toNat_toUInt8]
    omega
  rw [List.map_congr_left hunits, List.map_id']

namespace Json

/-- The strings in a value, names of members included. -/
def strings : Json → List JsString
  | .string s => [s]
  | .array elements => elementStrings elements
  | .object members => memberStrings members
  | _ => []
where
  elementStrings : List Json → List JsString
    | [] => []
    | j :: rest => strings j ++ elementStrings rest
  memberStrings : List (JsString × Json) → List JsString
    | [] => []
    | (name, j) :: rest => name :: (strings j ++ memberStrings rest)

end Json

def isSurrogate (u : UInt16) : Bool := isHighSurrogate u || isLowSurrogate u

/-- The text has Latin-1 characters other than DEL, and surrogates that form no pair. -/
structure SurvivesHeader (s : JsString) : Prop where
  units : ∀ u ∈ s, u.toNat ≤ 0xff ∧ u.toNat ≠ 0x7f ∨ isSurrogate u = true
  unpaired : s.IsChain fun u v => ¬(isHighSurrogate u && isLowSurrogate v) = true

/-! ## The characters of a JSON text -/

theorem isHeaderUnit_hexDigit (n : ℕ) : isHeaderUnit (Json.hexDigit n) = true := by
  have hlt : n % 16 < 16 := Nat.mod_lt _ (by decide)
  unfold Json.hexDigit
  generalize n % 16 = d at hlt
  interval_cases d <;> decide

theorem isHeaderValue_quoteUnit (u : UInt16) : isHeaderValue (Json.quoteUnit u) = true ↔
    u.toNat ≤ 0xff ∧ u.toNat ≠ 0x7f ∨ isSurrogate u = true := by
  unfold Json.quoteUnit
  split_ifs with hquote hbackslash hb ht hn hf hr hescape
  · subst hquote; decide
  · subst hbackslash; decide
  · subst hb; decide
  · subst ht; decide
  · subst hn; decide
  · subst hf; decide
  · subst hr; decide
  · have hascii : isHeaderValue (js "\\u") = true := by decide
    rw [Json.escapeUnit, isHeaderValue_append, hascii]
    simp only [isHeaderValue, List.all_cons, List.all_nil, isHeaderUnit_hexDigit, Bool.and_self,
      true_iff, isSurrogate]
    simp only [Bool.or_eq_true, decide_eq_true_eq, or_assoc] at hescape
    rcases hescape with hcontrol | hsurrogate
    · exact Or.inl ⟨by omega, by omega⟩
    · exact Or.inr (by simpa using hsurrogate)
  · have htab : u ≠ unit '\t' := ht
    have hplain : 0x20 ≤ u.toNat ∧ isSurrogate u = false := by
      simpa [isSurrogate, and_assoc] using hescape
    simp [isHeaderValue, isHeaderUnit, htab, hplain]

theorem isHeaderValue_quoteUnits (s : JsString) :
    isHeaderValue (Json.quoteUnits s) = true ↔ SurvivesHeader s := by
  induction s using Json.quoteUnits.induct with
  | case1 => exact iff_of_true rfl ⟨List.forall_mem_nil _, .nil⟩
  | case2 u =>
    rw [Json.quoteUnits, isHeaderValue_quoteUnit]
    exact ⟨fun h => ⟨by simpa using h, .singleton u⟩, fun h => h.units u (by simp)⟩
  | case3 u v s hpair ih =>
    rw [Json.quoteUnits, if_pos hpair]
    refine iff_of_false (fun h => ?_) fun h => ?_
    · have hlatin := toNat_of_isHeaderUnit (List.all_eq_true.mp h u (by simp))
      simp only [isHighSurrogate, Bool.and_eq_true, decide_eq_true_eq] at hpair
      omega
    · exact (List.isChain_cons_cons.mp h.unpaired).1 hpair
  | case4 u v s hpair ih =>
    rw [Json.quoteUnits, if_neg hpair, isHeaderValue_append, Bool.and_eq_true,
      isHeaderValue_quoteUnit, ih]
    constructor
    · rintro ⟨hu, hrest⟩
      exact ⟨List.forall_mem_cons.mpr ⟨hu, hrest.units⟩,
        List.isChain_cons_cons.mpr ⟨hpair, hrest.unpaired⟩⟩
    · intro h
      obtain ⟨hu, hrest⟩ := List.forall_mem_cons.mp h.units
      exact ⟨hu, hrest, (List.isChain_cons_cons.mp h.unpaired).2⟩

theorem isHeaderValue_quote (s : JsString) :
    isHeaderValue (Json.quote s) = true ↔ SurvivesHeader s := by
  have hquotes : isHeaderValue (js "\"") = true := by decide
  rw [Json.quote, isHeaderValue_append, isHeaderValue_append, hquotes, Bool.true_and, Bool.and_true,
    isHeaderValue_quoteUnits]

/-- The text of a number is ASCII. -/
theorem isHeaderValue_toText (n : JsNumber) : isHeaderValue n.toText = true := by
  refine List.all_eq_true.mpr fun u hu => ?_
  have hlatin : 0x20 ≤ u.toNat ∧ u.toNat ≤ 0xff ∧ u.toNat ≠ 0x7f := by
    have := n.graphic_toText u hu
    omega
  simp [isHeaderUnit, hlatin]

mutual

theorem isHeaderValue_stringify : ∀ j : Json,
    isHeaderValue j.stringify = true ↔ ∀ s ∈ j.strings, SurvivesHeader s
  | .null => iff_of_true (by decide) nofun
  | .bool b => iff_of_true (by cases b <;> decide) nofun
  | .number (.infinity _) => iff_of_true (show isHeaderValue (js "null") = true by decide) nofun
  | .number (.finite x) => iff_of_true (isHeaderValue_toText (.finite x)) nofun
  | .number .negativeZero => iff_of_true (isHeaderValue_toText .negativeZero) nofun
  | .string s => by
    rw [Json.stringify, isHeaderValue_quote, Json.strings, List.forall_mem_singleton]
  | .array elements => by
    have hopen : isHeaderValue (js "[") = true := by decide
    have hclose : isHeaderValue (js "]") = true := by decide
    rw [Json.stringify, isHeaderValue_append, isHeaderValue_append, hopen, hclose, Bool.true_and,
      Bool.and_true, isHeaderValue_elementsText elements, Json.strings]
  | .object members => by
    have hopen : isHeaderValue [Json.openBrace] = true := by decide
    have hclose : isHeaderValue [Json.closeBrace] = true := by decide
    rw [Json.stringify, isHeaderValue_append, isHeaderValue_append, hopen, hclose, Bool.true_and,
      Bool.and_true, isHeaderValue_membersText members, Json.strings]

theorem isHeaderValue_elementsText : ∀ elements : List Json,
    isHeaderValue (Json.stringify.elementsText elements) = true ↔
      ∀ s ∈ Json.strings.elementStrings elements, SurvivesHeader s
  | [] => iff_of_true rfl nofun
  | [j] => by
    rw [Json.stringify.elementsText, isHeaderValue_stringify j, Json.strings.elementStrings,
      Json.strings.elementStrings, List.append_nil]
  | j :: j' :: elements => by
    have hcomma : isHeaderValue (js ",") = true := by decide
    have hstrings : Json.strings.elementStrings (j :: j' :: elements) =
        j.strings ++ Json.strings.elementStrings (j' :: elements) := rfl
    rw [Json.stringify.elementsText, isHeaderValue_append, isHeaderValue_append, hcomma,
      Bool.and_true, Bool.and_eq_true, isHeaderValue_stringify j,
      isHeaderValue_elementsText (j' :: elements), hstrings, List.forall_mem_append]
    exact List.cons_ne_nil _ _

theorem isHeaderValue_membersText : ∀ members : List (JsString × Json),
    isHeaderValue (Json.stringify.membersText members) = true ↔
      ∀ s ∈ Json.strings.memberStrings members, SurvivesHeader s
  | [] => iff_of_true rfl nofun
  | [(name, j)] => by
    have hcolon : isHeaderValue (js ":") = true := by decide
    rw [Json.stringify.membersText, isHeaderValue_append, isHeaderValue_append, hcolon,
      Bool.and_true, Bool.and_eq_true, isHeaderValue_quote, isHeaderValue_stringify j,
      Json.strings.memberStrings, Json.strings.memberStrings, List.append_nil,
      List.forall_mem_cons]
  | (name, j) :: member :: members => by
    have hcolon : isHeaderValue (js ":") = true := by decide
    have hcomma : isHeaderValue (js ",") = true := by decide
    have hstrings : Json.strings.memberStrings ((name, j) :: member :: members) =
        name :: (j.strings ++ Json.strings.memberStrings (member :: members)) := rfl
    rw [Json.stringify.membersText, isHeaderValue_append, isHeaderValue_append,
      isHeaderValue_append, isHeaderValue_append, hcolon, hcomma, Bool.and_true, Bool.and_true,
      Bool.and_eq_true, Bool.and_eq_true, isHeaderValue_quote, isHeaderValue_stringify j,
      isHeaderValue_membersText (member :: members), hstrings, List.forall_mem_cons,
      List.forall_mem_append, and_assoc]
    exact List.cons_ne_nil _ _

end

/-! ## A reply with a data stream -/

/-- The client reads this response from the header of the reply. -/
def ArrivesIntact (host : Host) (headers : PostHeaders) (dwn : DwnCall → DwnOutcome)
    (response : Json) : Prop :=
  post host headers dwn = .ok (.dataStream response) ∧
    ∃ bytes, setHeader response.stringify = some bytes ∧
      Json.parse (headerText bytes) = some response

variable {host : Host} {headers : PostHeaders} {dwn : DwnCall → DwnOutcome}
  {request response : Json}

/-- A data stream comes with the response of a message that went to the DWN. -/
theorem exists_reply_of_stream
    (h : handlePost host headers request dwn = .ok ⟨some response, .stream⟩) :
    ∃ reply, dwn (httpCall headers request) = .ok reply ∧
      response = processedResponse (requestId host request) reply ∧ reply.entryData = true ∧
      JsValue.HasText (request.own (js "method")) := by
  cases hmethod : (request.own (js "method")).toText (C := DwnServerErrorCode) with
  | error e =>
    have htext : ¬JsValue.HasText (request.own (js "method")) := by simp [JsValue.HasText, hmethod]
    obtain ⟨e', he'⟩ : ∃ e', handlePost host headers request dwn = .error e' :=
      handlePost_error htext
    rw [he'] at h
    cases h
  | ok method =>
    by_cases hclose : method = closeMethod
    · subst hclose
      rw [handlePost_close hmethod] at h
      cases h
    by_cases hprocess : method ∈ processMethods
    · rw [handlePost_process hmethod hprocess] at h
      split_ifs at h
      · cases h
      · cases h
      · cases hdwn : dwn (httpCall headers request) with
        | error message =>
          rw [hdwn] at h
          cases h
        | ok reply =>
          rw [hdwn] at h
          obtain ⟨hresponse, hstream⟩ :
              processedResponse (requestId host request) reply = response ∧
              (if reply.entryData then ResponseData.stream else .absent) = .stream := by
            simpa [finishProcessMessage, claimSubscription] using h
          refine ⟨reply, rfl, hresponse.symm, ?_, ⟨_, hmethod⟩⟩
          cases hdata : reply.entryData with
          | true => rfl
          | false => simp [hdata] at hstream
    · rcases handlePost_other hmethod hclose hprocess with
        ⟨e, herror, -⟩ | ⟨response', hresponse, ⟨-, rfl⟩ | ⟨-, hnone⟩⟩
      · rw [herror] at h
        cases h
      · rw [hresponse] at h
        have hdata := congrArg HandlerResponse.dataStream (Except.ok.inj h)
        cases hown : request.own (js "dataStream") <;> simp [HandlerResponse.ofValue, hown] at hdata
      · rw [hresponse] at h
        obtain rfl := Except.ok.inj h
        cases hnone

theorem strings_processedResponse (id : Json) (reply : DwnReply) :
    (∀ s ∈ (processedResponse id reply).strings, SurvivesHeader s) ↔
      ∀ s ∈ id.strings ++ reply.toJson.strings, SurvivesHeader s := by
  rw [← isHeaderValue_stringify, isHeaderValue_processedResponse, isHeaderValue_stringify,
    isHeaderValue_stringify, List.forall_mem_append]

/-- The client of `POST /` reads the response of a reply with a data stream from the header,
exactly if all strings in the id of the request and in the reply survive it. -/
theorem arrivesIntact_iff (hparse : Json.parse (headers.dwnRequest.getD []) = some request)
    (hhandler : handlePost host headers request dwn = .ok ⟨some response, .stream⟩)
    (hjson : response.Canonical) :
    ∃ reply, dwn (httpCall headers request) = .ok reply ∧
      response = processedResponse (requestId host request) reply ∧
      (ArrivesIntact host headers dwn response ↔
        ∀ s ∈ (requestId host request).strings ++ reply.toJson.strings, SurvivesHeader s) := by
  obtain ⟨reply, hdwn, hresponse, -, hmethod⟩ := exists_reply_of_stream hhandler
  refine ⟨reply, hdwn, hresponse, ?_⟩
  rw [← strings_processedResponse, ← hresponse, ← isHeaderValue_stringify]
  have hcount : countRequest request (some response) = .ok false := by
    rw [hresponse]
    exact countRequest_processed hmethod _ reply
  have hempty := Json.ne_nil_of_parse hparse
  have hpost : post host headers dwn = sendHttp request ⟨some response, .stream⟩ := by
    rw [handlePost] at hhandler
    simp only [post, if_neg hempty, hparse, hhandler]
    rfl
  have hsend : sendHttp request ⟨some response, .stream⟩ =
      if isHeaderValue response.stringify then .ok (.dataStream response) else .error .engine := by
    simp only [sendHttp, hcount]
    rfl
  rw [ArrivesIntact, hpost, hsend]
  constructor
  · rintro ⟨-, bytes, hbytes, -⟩
    exact (Option.ite_none_right_eq_some.mp hbytes).1
  · intro hheader
    have hbytes : setHeader response.stringify = some (response.stringify.map UInt16.toUInt8) :=
      if_pos hheader
    refine ⟨if_pos hheader, _, hbytes, ?_⟩
    rw [headerText_setHeader hbytes, Json.parse_stringify,
      Json.reparsed_of_canonical response hjson]

/-- A request with this id for a record with data. -/
def readRequest (id : Json) : Json := .object
  [(js "id", id), (js "method", .string (js "dwn.processMessage")),
    (js "params", .object [(js "target", .string (js "did:a")), (js "message", .object
      [(js "descriptor", .object
        [(js "interface", .string (js "Records")), (js "method", .string (js "Read"))])])])]

def readHeaders (id : Json) : PostHeaders := ⟨some (readRequest id).stringify, none, false⟩

def recordRead : DwnReply := ⟨.ofInt 200, js "OK", true, false, []⟩

theorem handlePost_read {id : Json} (hid : requestId host (readRequest id) = id) :
    handlePost host (readHeaders id) (readRequest id) (fun _ => .ok recordRead) =
      .ok ⟨some (processedResponse id recordRead), .stream⟩ := by
  have hmethod : ((readRequest id).own (js "method")).toText (C := DwnServerErrorCode) =
      .ok (js "dwn.processMessage") := rfl
  have hdescriptor : (messageDescriptor (readRequest id)).isNullish = false := rfl
  have hsubscribe : ((messageDescriptor (readRequest id)).readOptional "method").isText
      (js "Subscribe") = false := rfl
  rw [handlePost_process hmethod (by decide), hid]
  simp only [hdescriptor, hsubscribe]
  rfl

theorem canonical_processedResponse {id : Json} (hid : id.Canonical) :
    (processedResponse id recordRead).Canonical := by
  have hcode : (Json.number (.ofInt 200)).Canonical := Json.canonical_number (by decide +kernel)
  have hnames : [js "jsonrpc", js "id", js "result"].Nodup := by decide
  exact ⟨hnames, rfl, trivial, hid, ⟨by decide, rfl, ⟨by decide, rfl, ⟨by decide, rfl, hcode,
    trivial, trivial⟩, trivial⟩, trivial⟩, trivial⟩

/-- The response to a request with id 1 arrives. -/
theorem arrivesIntact_one : ArrivesIntact ⟨[], []⟩ (readHeaders (.number (.ofInt 1)))
    (fun _ => .ok recordRead) (processedResponse (.number (.ofInt 1)) recordRead) := by
  have hparse : Json.parse ((readHeaders (.number (.ofInt 1))).dwnRequest.getD []) =
      some (readRequest (.number (.ofInt 1))) := by decide +kernel
  have hcanonical : (Json.number (.ofInt 1)).Canonical := Json.canonical_number (by decide +kernel)
  have hhandler : handlePost ⟨[], []⟩ (readHeaders (.number (.ofInt 1)))
      (readRequest (.number (.ofInt 1))) (fun _ => .ok recordRead) =
        .ok ⟨some (processedResponse (.number (.ofInt 1)) recordRead), .stream⟩ :=
    handlePost_read rfl
  obtain ⟨reply, hreply, -, hiff⟩ := arrivesIntact_iff hparse hhandler
    (canonical_processedResponse hcanonical)
  obtain rfl := Except.ok.inj hreply
  refine hiff.mpr ((strings_processedResponse _ _).mp ((isHeaderValue_stringify _).mp ?_))
  decide +kernel

/-- A client may choose an id that no header can carry. -/
theorem not_arrivesIntact : ¬∀ (host : Host) (headers : PostHeaders) (dwn : DwnCall → DwnOutcome)
    (request response : Json), Json.parse (headers.dwnRequest.getD []) = some request →
    handlePost host headers request dwn = .ok ⟨some response, .stream⟩ → response.Canonical →
    ArrivesIntact host headers dwn response := by
  intro h
  have hparse : Json.parse ((readHeaders (.string [0x20ac])).dwnRequest.getD []) =
      some (readRequest (.string [0x20ac])) := by decide +kernel
  obtain ⟨-, bytes, hbytes, -⟩ := h ⟨[], []⟩ _ _ _ _ hparse (handlePost_read rfl)
    (canonical_processedResponse trivial)
  have hnone : setHeader (processedResponse (.string [0x20ac]) recordRead).stringify = none := by
    decide +kernel
  rw [hnone] at hbytes
  cases hbytes

end DwnServer
