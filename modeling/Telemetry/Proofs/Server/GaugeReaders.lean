import Telemetry.Proofs.Http.Path
import Telemetry.Proofs.Json.Literal
import Telemetry.Proofs.Metric.Wire
import Telemetry.Proofs.Server.Cutting
/-!
A gauge that is sent as the text of a number: in the path, or as a member of a JSON object. Each route
answers 200 exactly if its own reader makes a finite number of the text, and stores that number. So the
routes agree exactly where the magnitudes do that the two readers find; for short literals they always
do, but not for all.
-/

namespace Telemetry

open Binary64 Json Storage

/-! ### What the routes read -/

namespace Payload

variable {n : Numeral} {t : String}

theorem ofText_literal (h : n.Literal t) :
    (ofText .gauge t).toOption = (finite? n.negative n.textMagnitude).map .gauge := by
  rw [← Numeral.filter_ofNumeral, ofText, h.trim_eq, h.ofText?_eq]
  cases (some (ofNumeral n)).filter isFinite <;> rfl

end Payload

def gaugeFront (name : String) : List Token :=
  [.openObject, .string (some "id"), .colon, .string (some name), .comma,
    .string (some "type"), .colon, .string (some "gauge"), .comma, .string (some "value"), .colon]

def gaugeBody (name t : String) : Bytes :=
  (gaugeFront name).flatMap Token.bytes ++ (Utf8.encode t ++ Token.closeObject.bytes)

namespace Metric

variable {n : Numeral} {t : String}

theorem read?_gaugeBody (h : n.Literal t) (name : String) :
    read? (gaugeBody name t) = (finite? n.negative n.jsonMagnitude).map (gauge name) := by
  have front : ∀ u ∈ gaugeFront name, u.Spelled ∧ u.isNumber = false := by
    simp [gaugeFront, Token.Spelled, Token.isNumber]
  have back : ∀ u ∈ [Token.closeObject], u.Spelled ∧ u.isNumber = false := by
    simp [Token.Spelled, Token.isNumber]
  have tokens : tokens? (gaugeBody name t) = some (gaugeFront name ++ [.number n, .closeObject]) := by
    rw [gaugeBody, ← List.flatMap_singleton Token.bytes]
    exact h.tokens?_eq front back
  have value : Value.ofTokens? (gaugeFront name ++ [.number n, .closeObject]) =
      some (.object [(some "id", .text name), (some "type", .text "gauge"),
        (some "value", .number n)]) := rfl
  have number : Value.optional? Value.binary64? (some (.number n)) = (toBinary64? n).map some :=
    optional?_number Value.binary64? n
  rw [read?, Value.read?, tokens, Option.bind_some, value, Option.bind_some, ← Numeral.toBinary64?_eq]
  change (Value.optional? Value.binary64? (some (.number n))).bind _ = _
  rw [number]
  cases toBinary64? n <;> rfl

end Metric

namespace Server

open Http

/-! ### What the routes do with it -/

/-- The number is stored and the answer is 200; or there is none, and the request is refused. -/
def Sets (m : Memory) (files : FileTree) (name : String) (status : Nat) (s : Store) :
    Option Binary64 → Prop
  | some x => status = 200 ∧ ∃ files', s =
      ⟨.memory (m.load { m.content with gauges := m.content.gauges.insert name x }), files'⟩
  | none => status = 400 ∧ s = ⟨.memory m, files⟩

variable {m : Memory} {files : FileTree} {raw name : String} {found : Option Binary64}

namespace Handler

theorem ensures_updateText_gauge {t : String} (named : nameOf raw = .ok name)
    (read : (Payload.ofText .gauge t).toOption = found.map .gauge)
    (finite : ∀ x ∈ found, x.isFinite = true) :
    Ensures privateStore (fun e s => Sets m files name e.status s found)
      (fun a s => Sets m files name a.status s found) (updateText "gauge" raw t)
      ⟨.memory m, files⟩ := by
  have kinds : kindOf "gauge" = .ok .gauge := kindOf_text .gauge
  rw [updateText, kinds, ensures_bind, ensures_checked]
  refine ⟨fun k hk => ?_, fun d hd => by cases hd⟩
  obtain rfl := Except.ok.inj hk
  rw [named, ensures_bind, ensures_checked]
  refine ⟨fun n hn => ?_, fun d hd => by cases hd⟩
  obtain rfl := Except.ok.inj hn
  rw [ensures_bind, ensures_checked]
  cases found with
  | none =>
    refine ⟨fun p hp => ?_, fun d _ => ⟨rfl, rfl⟩⟩
    rw [hp] at read
    cases read
  | some x =>
    refine ⟨fun p hp => ?_, fun d hd => ?_⟩
    · rw [hp] at read
      obtain rfl : p = .gauge x := Option.some.inj read
      rw [ensures_bind]
      exact ensures_put_memory (change?_putGauge m.content (nameOf_eq_ok named) (finite x rfl))
        fun files' => ⟨rfl, files', rfl⟩
    · rw [hd] at read
      cases read

theorem ensures_updateJson_gauge {r : Request} {body : Bytes} (named : nameOf raw = .ok name)
    (typed : SaysJson r) (read : Metric.read? body = found.map (Metric.gauge raw))
    (finite : ∀ x ∈ found, x.isFinite = true) :
    Ensures privateStore (fun e s => Sets m files name e.status s found)
      (fun a s => Sets m files name a.status s found) (updateJson r body) ⟨.memory m, files⟩ := by
  cases found with
  | none =>
    rw [updateJson, readJson_of_none typed read]
    exact ⟨rfl, rfl⟩
  | some x =>
    have asked : (Metric.gauge raw x).update? = some (name, .gauge x) :=
      Metric.update?_eq_some_iff.mpr ⟨named, Metric.payload?_gauge raw (finite x rfl)⟩
    have accepted := change?_putGauge m.content (nameOf_eq_ok named) (finite x rfl)
    exact (ensures_updateJson_memory (R := fun _ _ => False) typed read asked accepted).mono
      (fun _ _ no => no.elim) fun _ _ stored => stored

end Handler

structure SendsText (key : Option String) (r : Request) (name t : String) : Prop where
  method : r.method = "POST"
  path : ∃ segment, '/' ∉ segment.toList ∧ segmentText? segment = some name ∧
    r.path = "/update/gauge/" ++ segment ++ "/" ++ t
  through : Application.LetThrough key r

structure SendsGauge (key : Option String) (r : Request) (name t : String) : Prop where
  method : r.method = "POST"
  path : r.path = "/update"
  typed : Handler.SaysJson r
  through : Application.LetThrough key r
  content : contentOf? r = some (gaugeBody name t)
  short : (gaugeBody name t).length ≤ bodyLimit

variable {key : Option String} {r : Request} {n : Numeral} {t : String}

/-- Every name and every text can be sent both ways, if the body is not too long. -/
theorem exists_requests (name t : String) (short : (gaugeBody name t).length ≤ bodyLimit) :
    ∃ text json, SendsText none text name t ∧ SendsGauge none json name t := by
  obtain ⟨segment, hs, escaped⟩ := exists_segment name
  refine ⟨⟨"POST", "/update/gauge/" ++ segment ++ "/" ++ t, [], .raw []⟩,
    ⟨"POST", "/update", [("content-type", Utf8.encode "application/json")],
      .raw (gaugeBody name t)⟩, ?_, ?_⟩
  · refine ⟨rfl, ⟨segment, hs, escaped, rfl⟩, ?_, nofun, nofun⟩
    intro long
    exact Nat.not_lt_zero _ long.2
  · refine ⟨rfl, rfl, saysJson_jsonRequest "/update" "", ⟨?_, nofun, nofun⟩, rfl, short⟩
    intro long
    exact Nat.not_lt.mpr short long.2

theorem segments_gauge {segment : String} (hs : '/' ∉ segment.toList) (ht : '/' ∉ t.toList) :
    segments ("/update/gauge/" ++ segment ++ "/" ++ t) = ["", "update", "gauge", segment, t] := by
  have whole : ("/update/gauge/" ++ segment ++ "/" ++ t).toList =
      "/update/gauge/".toList ++ (segment.toList ++ '/' :: t.toList) := by
    simp
  have front (cs : List Char) : splitChars '/' ("/update/gauge/".toList ++ cs) =
      [] :: "update".toList :: "gauge".toList :: splitChars '/' cs := rfl
  rw [segments, split, whole, front, splitChars_append hs, splitChars_of_absent ht]
  simp

theorem SendsText.route_eq (h : SendsText key r raw t) (literal : n.Literal t)
    (content : Option Bytes) :
    route r content = (Handler.updateText "gauge" raw t).answer := by
  obtain ⟨segment, hs, escaped, path⟩ := h.path
  have slash : '/' ∉ t.toList := literal.not_mem (by decide) (by decide)
  have percent : '%' ∉ t.toList := literal.not_mem (by decide) (by decide)
  have plain : segmentText? t = some t := segmentText?_of_absent percent
  have kind : segmentText? "gauge" = some "gauge" := by decide +kernel
  have inked : t ≠ "" := by
    rintro rfl
    have read := literal.ofText?_eq
    rw [show ofText? "" = none by decide +kernel] at read
    cases read
  have found : Route.ofPath? r.path = some (.updateText "gauge" segment t) := by
    rw [path, Route.ofPath?, segments_gauge hs slash]
    exact if_neg inked
  rw [route, found]
  simp [Route.accepts, Route.isGet, h.method, Route.run, texts_cons, texts_nil, kind, escaped, plain,
    Except.map]

theorem SendsText.ensures_sets (h : SendsText key r raw t) (literal : n.Literal t)
    (named : nameOf raw = .ok name) : Program.Ensures privateStore
      (fun a s => Sets m files name a.status s (finite? n.negative n.textMagnitude))
      (Application.handle key r) ⟨.memory m, files⟩ := by
  have method : r.method ≠ "HEAD" := by
    rw [h.method]
    decide
  refine Application.ensures_handle_of_letThrough (P := fun a _ s => Sets m files name a s _)
    h.through method ?_
  rw [h.route_eq literal]
  apply Handler.ensures_answer
  exact Handler.ensures_updateText_gauge named (Payload.ofText_literal literal)
    isFinite_of_mem_finite?

/-- In JSON it is what the three roundings make of it. -/
theorem SendsGauge.ensures_sets (h : SendsGauge key r raw t) (literal : n.Literal t)
    (named : nameOf raw = .ok name) : Program.Ensures privateStore
      (fun a s => Sets m files name a.status s (finite? n.negative n.jsonMagnitude))
      (Application.handle key r) ⟨.memory m, files⟩ := by
  have routed : ∀ content, route r content = withBody content (Handler.updateJson r) := by
    intro content
    exact route_update h.method h.path
  refine ensures_handle_of_body (P := fun a _ s => Sets m files name a s _) h.through h.method
    routed h.content h.short ?_
  exact Handler.ensures_updateJson_gauge named h.typed (Metric.read?_gaugeBody literal raw)
    isFinite_of_mem_finite?

/-! ### Where the routes agree -/

def storedGauge (s : Store) (name : String) : Option Binary64 :=
  match s.perform (.getGauge name) with
  | (.ok x, _) => x
  | (.error _, _) => none

/-- Both are answered 200 and leave the same number under the name, or both are answered 400. -/
def Alike (name : String) (a b : Response × Store × List Log.Event) : Prop :=
  (a.1.status = 200 ∧ b.1.status = 200 ∧
    ∃ x, storedGauge a.2.1 name = some x ∧ storedGauge b.2.1 name = some x) ∨
  (a.1.status = 400 ∧ b.1.status = 400)

theorem Sets.storedGauge_eq {status : Nat} {s : Store} {x : Binary64}
    (h : Sets m files name status s (some x)) : storedGauge s name = some x := by
  obtain ⟨-, files', rfl⟩ := h
  simp [storedGauge, Store.perform_memory, Memory.perform, Memory.load]

theorem alike_iff {a b : Response × Store × List Log.Event} {other : Option Binary64}
    (ha : Sets m files name a.1.status a.2.1 found) (hb : Sets m files name b.1.status b.2.1 other) :
    Alike name a b ↔ found = other := by
  constructor
  · rintro (⟨okA, okB, x, left, right⟩ | ⟨badA, badB⟩)
    · cases found with
      | none => exact absurd (ha.1.symm.trans okA) (by decide)
      | some y =>
        cases other with
        | none => exact absurd (hb.1.symm.trans okB) (by decide)
        | some z => exact (ha.storedGauge_eq.symm.trans left).trans (right.symm.trans hb.storedGauge_eq)
    · cases found with
      | some y => exact absurd (ha.1.symm.trans badA) (by decide)
      | none =>
        cases other with
        | some z => exact absurd (hb.1.symm.trans badB) (by decide)
        | none => rfl
  · rintro rfl
    cases found with
    | none => exact .inr ⟨ha.1, hb.1⟩
    | some x => exact .inl ⟨ha.1, hb.1, x, ha.storedGauge_eq, hb.storedGauge_eq⟩

/-- Both routes set the gauge to what their readers make of the text, and they agree exactly if these
magnitudes are one. That is so for every short literal. -/
theorem gauges_read_alike_iff {text json : Request} (literal : n.Literal t)
    (named : nameOf raw = .ok name) (ht : SendsText key text raw t) (hj : SendsGauge key json raw t)
    (m : Memory) (files : FileTree) :
    let told := (Application.handle key text).run ⟨.memory m, files⟩
    let read := (Application.handle key json).run ⟨.memory m, files⟩
    Sets m files name told.1.status told.2.1 (finite? n.negative n.textMagnitude) ∧
      Sets m files name read.1.status read.2.1 (finite? n.negative n.jsonMagnitude) ∧
      (Alike name told read ↔ n.textMagnitude = n.jsonMagnitude) ∧
      (n.Short → Alike name told read) := by
  intro told read
  have setsTold : Sets m files name told.1.status told.2.1 (finite? n.negative n.textMagnitude) :=
    Program.ensures_alone_iff.mp (ht.ensures_sets literal named)
  have setsRead : Sets m files name read.1.status read.2.1 (finite? n.negative n.jsonMagnitude) :=
    Program.ensures_alone_iff.mp (hj.ensures_sets literal named)
  have alike := (alike_iff setsTold setsRead).trans
    (finite?_inj n.negative (nearest_le _) (scaledMagnitude_le _ _))
  exact ⟨setsTold, setsRead, alike, fun short => alike.mpr short.magnitude_eq.symm⟩

def sixteenDigits : Numeral := ⟨false, ['0'], "9917134328184473".toList, none⟩

def sixteenText : String := "0.9917134328184473"

def toldSixteen : Request := ⟨"POST", "/update/gauge/x/" ++ sixteenText, [], .raw []⟩

def readSixteen : Request :=
  jsonRequest "/update" ("\x7b\"id\":\"x\",\"type\":\"gauge\",\"value\":" ++ sixteenText ++ "\x7d")

/-- Both routes accept it, and they store different numbers. -/
theorem sixteen_digits_differ :
    let told := (Application.handle none toldSixteen).run freshMemory
    let read := (Application.handle none readSixteen).run freshMemory
    told.1.status = 200 ∧ read.1.status = 200 ∧ ¬Alike "x" told read := by
  intro told read
  have digits : ∀ c ∈ sixteenDigits.fraction, isDigit c = true :=
    List.all_eq_true.mp (by decide +kernel)
  have literal : sixteenDigits.Literal sixteenText :=
    ⟨⟨by decide, List.all_eq_true.mp (by decide), digits, nofun⟩, 'e', .inl rfl, by decide +kernel⟩
  have named : nameOf "x" = .ok "x" := by decide +kernel
  have through : Application.LetThrough none toldSixteen :=
    ⟨fun long => absurd long.2 (by decide), nofun, nofun⟩
  have ht : SendsText none toldSixteen "x" sixteenText :=
    ⟨rfl, ⟨"x", by decide, by decide +kernel, rfl⟩, through⟩
  have hj : SendsGauge none readSixteen "x" sixteenText :=
    ⟨rfl, rfl, saysJson_jsonRequest _ _, letThrough_jsonRequest (by decide +kernel),
      by decide +kernel, by decide +kernel⟩
  obtain ⟨-, -, alike, -⟩ := gauges_read_alike_iff literal named ht hj (.new none .inline) noFiles
  have differ : toBinary64? sixteenDigits ≠ (some (ofNumeral sixteenDigits)).filter isFinite := by
    decide +kernel
  refine ⟨by decide +kernel, by decide +kernel, fun same => differ ?_⟩
  rw [Numeral.toBinary64?_eq, Numeral.filter_ofNumeral, alike.mp same]

end Server

end Telemetry
