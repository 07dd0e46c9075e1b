import Reckoner.CommandLine
import Reckoner.Proofs.Decimal.ReadBack
import Reckoner.Proofs.Evaluation
import Reckoner.Proofs.Token.Longest
import Reckoner.Web.Router
import Reckoner.Window.Basic

/-!
# One verdict at every front end

The service, the command line and the window take an expression from a body, from arguments and from
an entry, and show a value or a refusal each in its own way. What they show is the verdict of one
evaluation: all of them give the same value, or all of them refuse with the same message.
-/
namespace Reckoner

/-- No finite number is written as null: its text starts with a sign, a digit or a point. -/
theorem Decimal.Layout.chars_ne_null (layout : Layout) {x : Float} (h : x.isFinite = true) :
    layout.chars x ≠ ['n', 'u', 'l', 'l'] := by
  obtain ⟨e, hnumber, -⟩ := layout.exists_number ((Binary64.isFinite_iff x).mp h)
  obtain ⟨c, cs, hchars, hc⟩ := hnumber.exists_head
  rw [layout.chars_of_isFinite h, hchars]
  intro hnull
  split at hnull
  · simp at hnull
  · obtain ⟨rfl, -⟩ := List.cons.inj hnull
    exact absurd hc (by decide)

/-- The text of an object with a value tells the text of the value. -/
theorem Json.render_value_inj {value value' : Json} :
    (object [("value", value)]).render = (object [("value", value')]).render ↔
      value.chars = value'.chars := by
  have hchars : ∀ json : Json, (object [("value", json)]).chars =
      '\x7b' :: (stringChars "value" ++ ':' :: json.chars) ++ ['\x7d'] := fun _ => rfl
  rw [render, render, String.ofList_inj, hchars, hchars, List.append_cancel_right_eq,
    List.cons_eq_cons, List.append_cancel_left_eq, List.cons_eq_cons]
  simp only [true_and]

/-- A number is written as null if and only if it is not finite. -/
theorem Json.render_value_eq_null_iff (x : Float) :
    (object [("value", .real x)]).render = (object [("value", .null)]).render ↔
      x.isFinite = false := by
  have hreal : (object [("value", .real x)]).render = (object [("value", .null)]).render ↔
      realChars x = ['n', 'u', 'l', 'l'] := render_value_inj
  rw [hreal, realChars]
  cases hfinite : x.isFinite with
  | true => simp [layout.chars_ne_null hfinite]
  | false => simp

namespace Web

/-- A call of the service with a body that it reads. -/
structure IsCall (request : Request) : Prop where
  method : request.method = "POST"
  path : request.target.path = evaluationPath
  body_le : request.body.size ≤ EvalApi.bodyLimit

namespace EvalApi

/-- The length that a request gives. -/
def length? (request : Request) : Option Nat :=
  (request.header? "content-length").bind contentLength?

/-- The fields of a body that is an object. -/
def fields? (body : ByteArray) : Option (List (String × Json)) :=
  match (String.fromUTF8? body).bind fun text => Json.parse? text.toList with
  | some (.object fields) => some fields
  | _ => none

theorem evaluateBody_of_fields {body : ByteArray} {fields : List (String × Json)}
    (h : fields? body = some fields) :
    evaluateBody body =
      (evaluate (expressionOf (Json.lookup "expression" fields))).mapError .refused := by
  rw [fields?] at h
  rw [evaluateBody]
  split at h
  · next hjson =>
    cases h
    rw [hjson]
    dsimp only
    cases evaluate (expressionOf (Json.lookup "expression" fields)) <;> rfl
  · cases h

theorem exists_refusal_of_fields {body : ByteArray} (h : fields? body = none) :
    ∃ refusal, evaluateBody body = .error refusal := by
  rw [fields?] at h
  rw [evaluateBody]
  split
  · exact ⟨_, rfl⟩
  · next hjson =>
    rw [hjson] at h
    cases h
  · exact ⟨_, rfl⟩

theorem evaluateRequest_of_length {request : Request} {n : Nat} (h : length? request = some n) :
    evaluateRequest request = evaluateBody request.body := by
  obtain ⟨header, hheader, hlength⟩ := Option.bind_eq_some_iff.mp h
  rw [evaluateRequest, hheader]
  dsimp only
  rw [hlength]

theorem exists_refusal_of_length {request : Request} (h : length? request = none) :
    ∃ refusal, evaluateRequest request = .error refusal := by
  rw [evaluateRequest]
  split
  · exact ⟨_, rfl⟩
  · next header hheader =>
    have hlength : contentLength? header = none := by simpa [length?, hheader] using h
    rw [hlength]
    exact ⟨_, rfl⟩

end EvalApi

open EvalApi (length? fields? evaluateRequest)

/-- A call with a length and with this expression in its body. -/
structure Carries (request : Request) (s : String) : Prop extends IsCall request where
  length : ∃ n, length? request = some n
  expression : ∃ fields, fields? request.body = some fields ∧
    EvalApi.expressionOf (Json.lookup "expression" fields) = s

theorem Carries.evaluateRequest_eq {request : Request} {s : String} (h : Carries request s) :
    evaluateRequest request = (evaluate s).mapError .refused := by
  obtain ⟨n, hlength⟩ := h.length
  obtain ⟨fields, hfields, rfl⟩ := h.expression
  rw [EvalApi.evaluateRequest_of_length hlength, EvalApi.evaluateBody_of_fields hfields]

section IsCall

variable {request : Request} (site : Site)

theorem IsCall.respond_eq (h : IsCall request) :
    respond site request = EvalApi.respond request := by
  rw [respond, Route.of]
  simp only [h.path, h.method, if_true]

theorem IsCall.respond_of_value (h : IsCall request) {v : Float}
    (hv : evaluateRequest request = .ok v) :
    respond site request =
      .ofText 200 "application/json" (Json.object [("value", .real v)]).render := by
  rw [h.respond_eq, EvalApi.respond, if_neg (Nat.not_lt.mpr h.body_le), hv]
  rfl

theorem IsCall.respond_of_refusal (h : IsCall request) {refusal : ApiRefusal}
    (hrefusal : evaluateRequest request = .error refusal) :
    respond site request =
      .ofText 400 "application/json" (Json.object [("error", .string refusal.message)]).render := by
  rw [h.respond_eq, EvalApi.respond, if_neg (Nat.not_lt.mpr h.body_le), hrefusal]
  rfl

/-- A call without a length or without an object is refused, and the answer says why. Without a
length the body is not looked at. -/
theorem IsCall.exists_respond_of_unread (h : IsCall request)
    (hunread : length? request = none ∨ fields? request.body = none) :
    ∃ message, respond site request =
      .ofText 400 "application/json" (Json.object [("error", .string message)]).render := by
  obtain ⟨refusal, hrefusal⟩ : ∃ refusal, evaluateRequest request = .error refusal := by
    cases hlength : length? request with
    | none => exact EvalApi.exists_refusal_of_length hlength
    | some n =>
      rw [EvalApi.evaluateRequest_of_length hlength]
      exact EvalApi.exists_refusal_of_fields (hunread.resolve_left (by simp [hlength]))
  exact ⟨refusal.message, h.respond_of_refusal site hrefusal⟩

end IsCall
end Web

namespace CommandLine

/-- The arguments make up this expression; the first is neither the mark that is left out nor a word
for help. -/
structure Carries (arguments : List String) (s : String) : Prop where
  ne_nil : arguments ≠ []
  joined : " ".intercalate arguments = s
  ne_mark : ∀ first ∈ arguments.head?, first ≠ "--"
  not_help : ∀ first ∈ arguments.head?, first ≠ "--help" ∧ isShortHelp first = false ∧
    first.startsWith "--help=" = false

theorem Carries.ofArguments_eq {arguments : List String} {s : String} (h : Carries arguments s) :
    Invocation.ofArguments arguments = .evaluation s := by
  obtain ⟨hne, rfl, hmark, hhelp⟩ := h
  obtain ⟨first, rest, rfl⟩ := List.exists_cons_of_ne_nil hne
  obtain ⟨hlong, hshort, hmisused⟩ := hhelp first rfl
  rw [Invocation.ofArguments, if_neg (hmark first rfl), if_neg (by simp [hlong, hshort]),
    if_neg (by simp [hmisused])]
  rfl

theorem Carries.run_of_value {arguments : List String} {s : String} (h : Carries arguments s)
    {v : Float} (hv : evaluate s = .ok v) :
    run arguments = ⟨0, [Decimal.result.render v]⟩ := by
  simp only [run, h.ofArguments_eq, hv, Exit.success]

theorem Carries.run_of_refusal {arguments : List String} {s : String} (h : Carries arguments s)
    {refusal : Refusal} (hrefusal : evaluate s = .error refusal) :
    run arguments = ⟨1, ["Error: " ++ refusal.message]⟩ := by
  simp only [run, h.ofArguments_eq, hrefusal, Exit.refused]

end CommandLine

/-- What the window adds to the message of a refusal: the place, for a malformed text. -/
def Refusal.place : Refusal → String
  | malformed position => s!" (près du caractère {position + 1})"
  | _ => ""

theorem Window.refusalMessage_eq (refusal : Refusal) :
    refusalMessage refusal = refusal.message ++ refusal.place := by
  cases refusal with
  | malformed position => rfl
  | _ => exact (String.append_empty).symm

/-- The traced evaluation gives the same verdict. -/
theorem evaluateTraced_map_fst (text : String) :
    (evaluateTraced text).map Prod.fst = evaluate text := by
  rw [evaluateTraced_eq, evaluate_eq]
  cases read text with
  | error refusal => rfl
  | ok reading =>
    show ((reading.expr.evaluate).bind _).map _ = reading.expr.evaluate
    cases reading.expr.evaluate <;> rfl

namespace Window

variable {w : Window} {s : String}

theorem step_equals_of_value {v : Float} (hentry : w.entry = s) (h : evaluate s = .ok v) :
    ∃ trace, evaluateTraced s = .ok (v, trace) ∧
      w.step (.press .equals) =
        { w with
          raw := some v, value := Decimal.fixed w.decimals v, refusal := "",
          panel := .ofTrace trace, focused := true } := by
  subst hentry
  rw [← evaluateTraced_map_fst] at h
  have hstep : w.step (.press .equals) = w.draw.evaluateEntry := rfl
  cases htraced : evaluateTraced w.entry with
  | error refusal =>
    rw [htraced] at h
    cases h
  | ok result =>
    obtain ⟨value, trace⟩ := result
    rw [htraced] at h
    cases h
    refine ⟨trace, rfl, ?_⟩
    rw [hstep, evaluateEntry, draw, htraced]
    rfl

theorem step_equals_of_refusal {refusal : Refusal} (hentry : w.entry = s)
    (h : evaluate s = .error refusal) :
    w.step (.press .equals) =
      { w with refusal := refusal.message ++ refusal.place, panel := .blank, focused := true } := by
  subst hentry
  rw [← evaluateTraced_map_fst] at h
  have hstep : w.step (.press .equals) = w.draw.evaluateEntry := rfl
  cases htraced : evaluateTraced w.entry with
  | ok result =>
    rw [htraced] at h
    cases h
  | error reason =>
    rw [htraced] at h
    cases h
    rw [hstep, evaluateEntry, draw, htraced, ← refusalMessage_eq]
    rfl

end Window

/-- Every front end gives this value for the expression, each in its own notation. -/
structure AllGive (s : String) (v : Float) : Prop where
  evaluate_eq : evaluate s = .ok v
  service : ∀ site request, Web.Carries request s → Web.respond site request =
    .ofText 200 "application/json" (Json.object [("value", .real v)]).render
  null_iff : (Json.object [("value", .real v)]).render = (Json.object [("value", .null)]).render ↔
    v.isFinite = false
  commandLine : ∀ arguments, CommandLine.Carries arguments s →
    CommandLine.run arguments = ⟨0, [Decimal.result.render v]⟩
  window : ∀ w : Window, w.entry = s → ∃ trace, evaluateTraced s = .ok (v, trace) ∧
    w.step (.press .equals) =
      { w with
        raw := some v, value := Decimal.fixed w.decimals v, refusal := "",
        panel := .ofTrace trace, focused := true }

/-- Every front end refuses the expression with the same message. The window adds the place to it,
and keeps the entry, the last value and the decimals. -/
structure AllRefuse (s : String) (refusal : Refusal) : Prop where
  evaluate_eq : evaluate s = .error refusal
  service : ∀ site request, Web.Carries request s → Web.respond site request =
    .ofText 400 "application/json" (Json.object [("error", .string refusal.message)]).render
  commandLine : ∀ arguments, CommandLine.Carries arguments s →
    CommandLine.run arguments = ⟨1, ["Error: " ++ refusal.message]⟩
  window : ∀ w : Window, w.entry = s → w.step (.press .equals) =
    { w with refusal := refusal.message ++ refusal.place, panel := .blank, focused := true }

theorem allGive {s : String} {v : Float} (h : evaluate s = .ok v) : AllGive s v where
  evaluate_eq := h
  service site request hcarries :=
    hcarries.respond_of_value site (by rw [hcarries.evaluateRequest_eq, h]; rfl)
  null_iff := Json.render_value_eq_null_iff v
  commandLine _ hcarries := hcarries.run_of_value h
  window _ hentry := Window.step_equals_of_value hentry h

theorem allRefuse {s : String} {refusal : Refusal} (h : evaluate s = .error refusal) :
    AllRefuse s refusal where
  evaluate_eq := h
  service site request hcarries := by
    have hrefusal : Web.EvalApi.evaluateRequest request = .error (.refused refusal) := by
      rw [hcarries.evaluateRequest_eq, h]
      rfl
    have hmessage : (Web.ApiRefusal.refused refusal).message = refusal.message := rfl
    rw [hcarries.respond_of_refusal site hrefusal, hmessage]
  commandLine _ hcarries := hcarries.run_of_refusal h
  window _ hentry := Window.step_equals_of_refusal hentry h

/-- All front ends give one verdict on every expression, a value or a refusal. A call of the service
that has no length or no object is refused as well, and the answer says why. -/
theorem front_ends_agree :
    (∀ s, (∃ v, AllGive s v) ∨ ∃ refusal, AllRefuse s refusal) ∧
    ∀ site request, Web.IsCall request →
      (Web.EvalApi.length? request = none ∨ Web.EvalApi.fields? request.body = none) →
      ∃ message, Web.respond site request =
        .ofText 400 "application/json" (Json.object [("error", .string message)]).render := by
  constructor
  · intro s
    cases h : evaluate s with
    | ok v => exact .inl ⟨v, allGive h⟩
    | error refusal => exact .inr ⟨refusal, allRefuse h⟩
  · exact fun site request hcall hunread => hcall.exists_respond_of_unread site hunread

/-- The exceptions: more letters that ask for help, or a value for the word, are no expression on
the command line, and a body that is too large is not read, whatever else is wrong with the call. -/
theorem front_ends_differ_on_help :
    (" ".intercalate ["-hh"] = "-hh" ∧ "-hh" ∉ ["-h", "--help", "--"] ∧
      evaluate "-hh" = .error (.unknownName "hh") ∧
      CommandLine.run ["-hh"] = .success CommandLine.helpLines ∧
      CommandLine.run ["-hh"] ≠ ⟨1, ["Error: " ++ (Refusal.unknownName "hh").message]⟩) ∧
    (" ".intercalate ["--help=1"] = "--help=1" ∧ "--help=1" ∉ ["-h", "--help", "--"] ∧
      evaluate "--help=1" = .error (.malformed 6) ∧
      CommandLine.run ["--help=1"] = ⟨2, []⟩) ∧
    ∃ request : Web.Request, request.method = "POST" ∧
      request.target.path = Web.evaluationPath ∧ Web.EvalApi.length? request = none ∧
      ∀ site, (Web.respond site request).status = 413 := by
  have hhelp : CommandLine.run ["-hh"] = .success CommandLine.helpLines := by decide +kernel
  refine ⟨⟨by decide +kernel, by decide, ?_, hhelp, ?_⟩,
    ⟨by decide +kernel, by decide, by decide +kernel, ?_⟩, ?_⟩
  · have hread : read "-hh" =
        .ok ⟨[⟨.minus, 0⟩, ⟨.name "hh", 1⟩], .signed .minus (.name "hh")⟩ := by
      with_unfolding_all rfl
    rw [evaluate_eq, hread]
    rfl
  · rw [hhelp]
    exact fun h => absurd (congrArg Exit.code h) (by decide)
  · have hvalue : "--help=1".startsWith "--help=" = true := by
      rw [String.startsWith_string_iff]
      decide
    simp [CommandLine.run, CommandLine.Invocation.ofArguments, CommandLine.isShortHelp, hvalue,
      Exit.misused]
  · have hsize : Web.EvalApi.bodyLimit <
        (ByteArray.mk (Array.replicate (Web.EvalApi.bodyLimit + 1) 0)).size := by
      rw [ByteArray.size, Array.size_replicate]
      exact Nat.lt_succ_self _
    generalize ByteArray.mk (Array.replicate (Web.EvalApi.bodyLimit + 1) 0) = body at hsize
    refine ⟨⟨"POST", ⟨[], Web.evaluationPath, none⟩, [], body⟩, rfl, rfl, rfl, fun site => ?_⟩
    rw [Web.respond, Web.Route.of]
    simp only [if_true]
    rw [Web.EvalApi.respond, if_pos hsize]
    rfl

/-- The number e, called with a length, typed as an argument, and entered. -/
theorem front_ends_agree_on_e :
    Web.Carries ⟨"POST", ⟨[], Web.evaluationPath, none⟩, [("Content-Length", "18")],
      "\x7b\"expression\":\"e\"\x7d".toUTF8⟩ "e" ∧
    CommandLine.Carries ["e"] "e" ∧
    ((∃ v, AllGive "e" v) ∨ ∃ refusal, AllRefuse "e" refusal) := by
  refine ⟨⟨⟨rfl, rfl, ?_⟩, ?_, ?_⟩, ⟨by simp, by decide +kernel, by simp, ?_⟩,
    front_ends_agree.1 "e"⟩
  · decide
  · exact ⟨18, by decide +kernel⟩
  · exact ⟨[("expression", .string "e")], by with_unfolding_all rfl, by decide +kernel⟩
  · simp only [List.head?_cons, Option.mem_def, Option.some.injEq, forall_eq']
    exact ⟨by decide, by decide +kernel, by decide +kernel⟩

end Reckoner
