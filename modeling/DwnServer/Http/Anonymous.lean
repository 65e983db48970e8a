import DwnServer.Http.Reads

/-!
# What anonymous readers can tell apart

Two servers get the same requests, and the DWN of one shows nothing where that of the other shows
nothing either: it does not know the reader, or finds nothing, or lists nothing. Mostly the readers
get the same answers. The places where they do not are those that forward a reply.
-/
namespace DwnServer

open Transition

/-- The reply does not show anything to the reader. -/
def QueryReply.ShowsNothing (reply : QueryReply) : Prop :=
  reply.statusCode = 401 ∨ reply.statusCode = 404 ∨
    reply.statusCode = 200 ∧ reply.entries = some []

def RecordsReadReply.ShowsNothing (reply : RecordsReadReply) : Prop :=
  reply.statusCode = .ofInt 401 ∨ reply.statusCode = .ofInt 404

/-- Two replies that show nothing, to questions of one kind. -/
inductive DwnListing.Veiled : DwnListing → DwnListing → Prop
  | queried {reply reply' : QueryReply} (h : reply.ShowsNothing) (h' : reply'.ShowsNothing) :
      Veiled (.queried reply) (.queried reply')
  | read {reply reply' : RecordsReadReply} (h : reply.ShowsNothing) (h' : reply'.ShowsNothing) :
      Veiled (.read reply) (.read reply')

/-- The actions of the two servers: the same, or replies to one question that show nothing. -/
inductive GetAction.Twin : GetAction → GetAction → Prop
  | same (a : GetAction) : Twin a a
  | veiled (i : ℕ) {reply reply' : DwnListing} (h : reply.Veiled reply') :
      Twin (.settles i (.ok reply)) (.settles i (.ok reply'))

variable {B : Type}

namespace GetStage

/-- What the handler sends does not depend on which of the two replies it gets. A query of records
is answered with the reply itself, a list of protocols only with one that has the status 200, and
the read of a record with a reply that has the status 404. -/
def TellsAlike : GetStage B → DwnListing → DwnListing → Prop
  | .queries _ _, .queried reply, .queried reply' =>
    reply.toJson.stringify = reply'.toJson.stringify
  | .queriesProtocols, .queried reply, .queried reply' =>
    reply.statusCode = 200 ↔ reply'.statusCode = 200
  | .readsPath _, .read reply, .read reply' | .reads _, .read reply, .read reply' =>
    reply.statusCode = reply'.statusCode ∧
      (reply.statusCode = .ofInt 404 → reply.toJson.stringify = reply'.toJson.stringify)
  | _, _, _ => True

theorem tellsAlike_refl (stage : GetStage B) (reply : DwnListing) :
    stage.TellsAlike reply reply := by
  cases stage <;> cases reply <;> simp [TellsAlike]

/-- The two servers go on in the same way, or with different answers. -/
structure Forks (alike : Prop) (next next' : GetStage B) : Prop where
  same : alike → next = next'
  differ : ¬alike → ∃ answer answer',
    next.answer? = some answer ∧ next'.answer? = some answer' ∧ answer ≠ answer'

theorem Forks.of_eq {alike : Prop} {next next' : GetStage B} (h : alike) (heq : next = next') :
    Forks alike next next' :=
  ⟨fun _ => heq, fun hnot => absurd h hnot⟩

theorem Forks.of_ne {alike : Prop} {answer answer' : GetAnswer} (h : ¬alike)
    (hne : answer ≠ answer') : Forks alike (.answered answer : GetStage B) (.answered answer') :=
  ⟨fun halike => absurd halike h, fun _ => ⟨answer, answer', rfl, rfl, hne⟩⟩

theorem entries_of_showsNothing {reply : QueryReply} (h : reply.ShowsNothing)
    (hcode : reply.statusCode = 200) : reply.entries = some [] := by
  rcases h with h | h | h
  · omega
  · omega
  · exact h.2

theorem queryRefused_of_showsNothing {reply : QueryReply} (h : reply.ShowsNothing)
    (hcode : reply.statusCode ≠ 200) :
    (queryRefused reply.statusCode : GetStage B) = .answered (.sendStatus 404) := by
  unfold queryRefused
  split_ifs with hunauthorized
  · rfl
  · have hnotFound : reply.statusCode = 404 := by
      rcases h with h | h | h
      · exact absurd h hunauthorized
      · exact h
      · exact absurd h.1 hcode
    rw [hnotFound]

theorem pathQueried_of_showsNothing {reply : QueryReply} (h : reply.ShowsNothing) :
    (pathQueried reply : GetStage B) = .answered (.sendStatus 404) := by
  by_cases hcode : reply.statusCode = 200
  · rw [pathQueried, if_pos hcode, entries_of_showsNothing h hcode]
    rfl
  · rw [pathQueried, if_neg hcode, queryRefused_of_showsNothing h hcode]

theorem protocolQueried_of_showsNothing {reply : QueryReply} (h : reply.ShowsNothing) :
    (protocolQueried reply : GetStage B) = .answered (.sendStatus 404) := by
  by_cases hcode : reply.statusCode = 200
  · rw [protocolQueried, if_pos hcode, entries_of_showsNothing h hcode]
    rfl
  · rw [protocolQueried, if_neg hcode, queryRefused_of_showsNothing h hcode]

theorem protocolsQueried_of_showsNothing {reply : QueryReply} (h : reply.ShowsNothing) :
    (protocolsQueried reply : GetStage B) = .answered
      (if reply.statusCode = 200 then .json (.ofInt 200) (Json.array []).stringify
        else .sendStatus 404) := by
  by_cases hcode : reply.statusCode = 200
  · rw [protocolsQueried, if_pos hcode, if_pos hcode, entries_of_showsNothing h hcode]
    rfl
  · rw [protocolsQueried, if_neg hcode, if_neg hcode, queryRefused_of_showsNothing h hcode]

theorem forks_protocols {reply reply' : QueryReply} (h : reply.ShowsNothing)
    (h' : reply'.ShowsNothing) : Forks (reply.statusCode = 200 ↔ reply'.statusCode = 200)
      (protocolsQueried reply : GetStage B) (protocolsQueried reply') := by
  rw [protocolsQueried_of_showsNothing h, protocolsQueried_of_showsNothing h']
  by_cases hcode : reply.statusCode = 200 <;> by_cases hcode' : reply'.statusCode = 200
  · rw [if_pos hcode, if_pos hcode']
    exact .of_eq (iff_of_true hcode hcode') rfl
  · rw [if_pos hcode, if_neg hcode']
    exact .of_ne (fun hiff => hcode' (hiff.mp hcode)) nofun
  · rw [if_neg hcode, if_pos hcode']
    exact .of_ne (fun hiff => hcode (hiff.mpr hcode')) nofun
  · rw [if_neg hcode, if_neg hcode']
    exact .of_eq (iff_of_false hcode hcode') rfl

theorem recordRead_unauthorized {reply : RecordsReadReply} (hcode : reply.statusCode = .ofInt 401)
    (caught : Bool) : (recordRead caught reply : GetStage B) = .answered (.sendStatus 404) := by
  rw [recordRead, readReplyHandler_unauthorized hcode]
  rfl

theorem recordRead_notFound {reply : RecordsReadReply} (hcode : reply.statusCode = .ofInt 404)
    (caught : Bool) : (recordRead caught reply : GetStage B) =
      .answered (.json (.ofInt 404) reply.toJson.stringify) := by
  have hbody : (ReadAnswer.send (.ofInt 404) reply.toJson).body = some reply.toJson.stringify :=
    if_neg (by decide +kernel)
  rw [recordRead, readReplyHandler_notFound hcode]
  exact congrArg (fun body : Option JsString => answered (.json (.ofInt 404) (body.getD []))) hbody

theorem forks_record {reply reply' : RecordsReadReply} (h : reply.ShowsNothing)
    (h' : reply'.ShowsNothing) (caught : Bool) :
    Forks (reply.statusCode = reply'.statusCode ∧
        (reply.statusCode = .ofInt 404 → reply.toJson.stringify = reply'.toJson.stringify))
      (recordRead caught reply : GetStage B) (recordRead caught reply') := by
  have hcodes : JsNumber.ofInt 401 ≠ .ofInt 404 := by decide +kernel
  rcases h with hcode | hcode <;> rcases h' with hcode' | hcode'
  · rw [recordRead_unauthorized hcode, recordRead_unauthorized hcode', hcode, hcode']
    exact .of_eq ⟨rfl, fun heq => absurd heq hcodes⟩ rfl
  · rw [recordRead_unauthorized hcode, recordRead_notFound hcode', hcode, hcode']
    exact .of_ne (fun halike => hcodes halike.1) nofun
  · rw [recordRead_notFound hcode, recordRead_unauthorized hcode', hcode, hcode']
    exact .of_ne (fun halike => hcodes halike.1.symm) nofun
  · rw [recordRead_notFound hcode, recordRead_notFound hcode', hcode, hcode']
    by_cases hjson : reply.toJson.stringify = reply'.toJson.stringify
    · exact .of_eq ⟨rfl, fun _ => hjson⟩ (by rw [hjson])
    · exact .of_ne (fun halike => hjson (halike.2 rfl)) fun heq => hjson (GetAnswer.json.inj heq).2

/-- Two replies that show nothing are told alike, or the reader gets two answers. -/
theorem forks_of_settle {stage next next' : GetStage B} {reply reply' : DwnListing}
    (hveiled : reply.Veiled reply') (h : stage.settle (.ok reply) = some next)
    (h' : stage.settle (.ok reply') = some next') :
    Forks (stage.TellsAlike reply reply') next next' := by
  cases hveiled with
  | @queried reply reply' hr hr' =>
    cases stage with
    | queriesPath options heap =>
      obtain rfl := Option.some.inj h
      obtain rfl := Option.some.inj h'
      exact .of_eq trivial
        ((pathQueried_of_showsNothing hr).trans (pathQueried_of_showsNothing hr').symm)
    | queriesProtocol protocol =>
      obtain rfl := Option.some.inj h
      obtain rfl := Option.some.inj h'
      exact .of_eq trivial
        ((protocolQueried_of_showsNothing hr).trans (protocolQueried_of_showsNothing hr').symm)
    | queriesProtocols =>
      obtain rfl := Option.some.inj h
      obtain rfl := Option.some.inj h'
      exact forks_protocols hr hr'
    | queries options heap =>
      obtain rfl := Option.some.inj h
      obtain rfl := Option.some.inj h'
      by_cases hjson : reply.toJson.stringify = reply'.toJson.stringify
      · exact .of_eq hjson (by rw [hjson])
      · exact .of_ne hjson fun heq => hjson (GetAnswer.json.inj heq).2
    | readsPath | reads | answered | rejected => cases h
  | @read reply reply' hr hr' =>
    cases stage with
    | readsPath recordId =>
      obtain rfl := Option.some.inj h
      obtain rfl := Option.some.inj h'
      exact forks_record hr hr' true
    | reads id =>
      obtain rfl := Option.some.inj h
      obtain rfl := Option.some.inj h'
      exact forks_record hr hr' false
    | queriesPath | queriesProtocol | queriesProtocols | queries | answered | rejected => cases h

end GetStage

namespace GetRun

/-- At this pair of actions the servers, which have been alike, stay alike. -/
def ToldAlike (w : GetRun B) : GetAction × GetAction → Prop
  | (.settles i (.ok reply), .settles _ (.ok reply')) =>
    ∀ get, w.gets[i]? = some get → get.stage.TellsAlike reply reply'
  | _ => True

theorem toldAlike_same (w : GetRun B) (a : GetAction) : w.ToldAlike (a, a) := by
  unfold ToldAlike
  split
  · rename_i heq
    obtain ⟨rfl, heq'⟩ := Prod.mk.inj heq
    obtain rfl := (Except.ok.inj (GetAction.settles.inj heq').2)
    exact fun get _ => get.stage.tellsAlike_refl _
  · trivial

variable [DecidableEq B] {realm : Realm B} {decodeProtocol : JsString → Option JsString}
  {w t t' : GetRun B} {a a' : GetAction}

/-- A request is answered once. -/
theorem answer?_step {i : ℕ} {answer : GetAnswer} (h : w.step realm decodeProtocol a = some t)
    (hi : w.answer? i = some answer) : t.answer? i = some answer := by
  obtain ⟨get, hget, hanswer⟩ := Option.bind_eq_some_iff.mp hi
  cases a with
  | get did route =>
    obtain rfl := Option.some.inj h
    have hlt : i < w.gets.length := (List.getElem?_eq_some_iff.mp hget).1
    rw [answer?, List.getElem?_append_left hlt, hget]
    exact hanswer
  | settles j outcome =>
    obtain ⟨get', stage, hget', hsettle, rfl⟩ := settles_eq_some.mp h
    have hne : j ≠ i := by
      rintro rfl
      obtain rfl := Option.some.inj (hget.symm.trans hget')
      cases hstage : get.stage with
      | answered answer' =>
        rw [hstage] at hsettle
        cases hsettle
      | _ =>
        rw [hstage] at hanswer
        cases hanswer
    rw [answer?, List.getElem?_set_ne hne, hget]
    exact hanswer

/-- Some request has got two answers. -/
def Differ (w : GetRun B × GetRun B) : Prop :=
  ∃ i answer answer', w.1.answer? i = some answer ∧ w.2.answer? i = some answer' ∧
    answer ≠ answer'

/-- A pair of steps from one state leads to one state if it is told alike, and else to two answers
of one request. -/
theorem forks_of_step (htwin : a.Twin a') (h : w.step realm decodeProtocol a = some t)
    (h' : w.step realm decodeProtocol a' = some t') :
    (w.ToldAlike (a, a') → t = t') ∧ (¬w.ToldAlike (a, a') → Differ (t, t')) := by
  cases htwin with
  | same =>
    exact ⟨fun _ => Option.some.inj (h.symm.trans h'), fun hnot => absurd (w.toldAlike_same a) hnot⟩
  | @veiled i reply reply' hveiled =>
    obtain ⟨get, stage, hget, hsettle, rfl⟩ := settles_eq_some.mp h
    obtain ⟨get', stage', hget', hsettle', rfl⟩ := settles_eq_some.mp h'
    obtain rfl := Option.some.inj (hget.symm.trans hget')
    have hforks := GetStage.forks_of_settle hveiled hsettle hsettle'
    have hlt : i < w.gets.length := (List.getElem?_eq_some_iff.mp hget).1
    refine ⟨fun halike => ?_, fun hnot => ?_⟩
    · rw [hforks.same (halike get hget)]
    · have hnot' : ¬get.stage.TellsAlike reply reply' := by
        intro halike
        refine hnot fun other hother => ?_
        obtain rfl := Option.some.inj (hget.symm.trans hother)
        exact halike
      obtain ⟨answer, answer', hanswer, hanswer', hne⟩ := hforks.differ hnot'
      refine ⟨i, answer, answer', ?_, ?_, hne⟩
      · simpa [answer?, List.getElem?_set_self hlt] using hanswer
      · simpa [answer?, List.getElem?_set_self hlt] using hanswer'

/-- Two servers in one state get the same requests, and the replies of their DWNs are the same but
for replies that show nothing. All their answers are the same exactly if no such pair of replies
comes to a handler that tells the two apart. -/
theorem answers_alike_iff {pairs : List (GetAction × GetAction)}
    (htwins : ∀ a ∈ pairs, a.1.Twin a.2)
    (hrun : run (both (step realm decodeProtocol)) (w, w) pairs = some (t, t')) :
    (∀ i, t.answer? i = t'.answer? i) ↔
      Along (both (step realm decodeProtocol)) (fun s a _ => s.1.ToldAlike a) (w, w) pairs := by
  have hforks : (Along (both (step realm decodeProtocol)) (fun s a _ => s.1.ToldAlike a) (w, w)
        pairs ∧ t = t') ∨
      ¬Along (both (step realm decodeProtocol)) (fun s a _ => s.1.ToldAlike a) (w, w) pairs ∧
        Differ (t, t') := by
    refine run_forks (I := fun s : GetRun B × GetRun B => s.1 = s.2) (D := Differ)
      (fun s a u hs htwin hu hR => ?_) (fun s a u hs htwin hu hR => ?_) (fun s a u hs hu => ?_)
      htwins rfl hrun
    · obtain ⟨h, h'⟩ := both_eq_some.mp hu
      rw [← hs] at h'
      exact (forks_of_step htwin h h').1 hR
    · obtain ⟨h, h'⟩ := both_eq_some.mp hu
      rw [← hs] at h'
      exact (forks_of_step htwin h h').2 hR
    · obtain ⟨h, h'⟩ := both_eq_some.mp hu
      obtain ⟨i, answer, answer', hanswer, hanswer', hne⟩ := hs
      exact ⟨i, answer, answer', answer?_step h hanswer, answer?_step h' hanswer', hne⟩
  rcases hforks with ⟨along, rfl⟩ | ⟨stops, i, answer, answer', hanswer, hanswer', hne⟩
  · exact ⟨fun _ => along, fun _ _ => rfl⟩
  · refine ⟨fun heq => absurd ?_ hne, fun along => absurd along stops⟩
    exact Option.some.inj (hanswer.symm.trans ((heq i).trans hanswer'))

/-- A refused query. -/
def queryUnauthorized : QueryReply :=
  ⟨401, js "Unauthorized", none, [], by decide, by decide⟩

def nothingListed : QueryReply := ⟨200, js "OK", some [], [], by decide, by decide⟩

/-- A reader asks for a protocol and for a record, which one DWN hides and the other does not
have. -/
def hiddenOrAbsent : List (GetAction × GetAction) :=
  [(.get (js "did:a") (.readProtocol (js "p")), .get (js "did:a") (.readProtocol (js "p"))),
    (.get (js "did:a") (.records (js "1")), .get (js "did:a") (.records (js "1"))),
    (.settles 0 (.ok (.queried queryUnauthorized)), .settles 0 (.ok (.queried nothingListed))),
    (.settles 1 (.ok (.read unauthorized)), .settles 1 (.ok (.read notFound)))]

theorem twins_hiddenOrAbsent : ∀ a ∈ hiddenOrAbsent, a.1.Twin a.2 := by
  intro a ha
  simp only [hiddenOrAbsent, List.mem_cons, List.not_mem_nil, or_false] at ha
  rcases ha with rfl | rfl | rfl | rfl
  · exact .same _
  · exact .same _
  · exact .veiled 0 (.queried (Or.inl rfl) (Or.inr (Or.inr ⟨rfl, rfl⟩)))
  · exact .veiled 1 (.read (Or.inl rfl) (Or.inr rfl))

/-- The protocol is answered alike, and the record is not. -/
theorem answers_alike_hidden : ∃ t t',
    run (both (step objectRealm some)) (⟨.fresh objectRealm 0, []⟩, ⟨.fresh objectRealm 0, []⟩)
      hiddenOrAbsent = some (t, t') ∧
    t.answer? 0 = t'.answer? 0 ∧ t.answer? 1 ≠ t'.answer? 1 ∧
    ¬Along (both (step objectRealm some)) (fun s a _ => s.1.ToldAlike a)
      (⟨.fresh objectRealm 0, []⟩, ⟨.fresh objectRealm 0, []⟩) hiddenOrAbsent := by
  obtain ⟨t, t', hrun, hprotocol, hrecord, hrecord'⟩ : ∃ t t',
      run (both (step objectRealm some)) (⟨.fresh objectRealm 0, []⟩, ⟨.fresh objectRealm 0, []⟩)
        hiddenOrAbsent = some (t, t') ∧ t.answer? 0 = t'.answer? 0 ∧
      t.answer? 1 = (GetStage.recordRead false unauthorized : GetStage BuiltIn).answer? ∧
      t'.answer? 1 = (GetStage.recordRead false notFound : GetStage BuiltIn).answer? :=
    ⟨_, _, rfl, rfl, rfl, rfl⟩
  have hne : t.answer? 1 ≠ t'.answer? 1 := by
    rw [hrecord, hrecord', GetStage.recordRead_unauthorized rfl, GetStage.recordRead_notFound rfl]
    exact nofun
  refine ⟨t, t', hrun, hprotocol, hne, fun along => ?_⟩
  exact hne ((answers_alike_iff twins_hiddenOrAbsent hrun).mpr along 1)

end GetRun

end DwnServer
