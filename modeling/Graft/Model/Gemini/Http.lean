import Graft.Model.Gemini
import Graft.Text.Quoted

/-
Gemini over HTTP.

  `Gemini.httpRequest p`         the request over HTTP for a payload, or why none can be sent;
  `Gemini.HttpOutcome`           what comes of a request over HTTP;
  `Gemini.overHttp http r`       the exchange about a request, for given outcomes;
  `Gemini.sent e`                the requests over HTTP that an exchange took.

A request needs an address with a scheme.  Every attempt of an exchange sends the same request, so
either all of them are sent or none is.
-/
namespace Graft.Gemini

/-- An address without blanks around it and without a label in front. -/
def bareAddress (t : Text) : Text :=
  let t := Text.stripped t
  ((Text.after? "URL:".toList t).map Text.stripped).getD t

def withoutFragment (t : Text) : Text :=
  match t.reverse.dropWhile (· != '#') with
  | [] => t
  | _ :: cs => cs.reverse

/-- Whether an address begins with a scheme. -/
def hasScheme (t : Text) : Bool :=
  let t := withoutFragment t
  let scheme := t.takeWhile fun c => c != '/' && c != ':'
  !scheme.isEmpty && (t.drop scheme.length).head? == some ':'

/-- A request over HTTP. -/
structure HttpRequest where
  url : Text
  headers : List (Text × Text)
  data : Text
  -- How many seconds to wait for a response.
  timeout : Number

/-- The request over HTTP for a payload, or the message why it cannot be sent. -/
def httpRequest (g : Gemini) (p : Model.Payload) : Except Text HttpRequest :=
  let url := bareAddress (g.url (g.modelOf p))
  if hasScheme url then
    .ok
      { url
        headers :=
          [("content-type".toList, "application/json".toList),
           ("x-goog-api-key".toList, g.apiKey.getD [])]
        data := Json.print .spaced (body p)
        timeout := g.timeout }
  else .error ("unknown url type: ".toList ++ Text.quoted url)

/-- What comes of a request over HTTP. -/
inductive HttpOutcome where
  -- A response; without a status it counts as a success.
  | response (status : Option Int) (body : ByteArray)
  | refused (status : Int) (body : ByteArray)
  | unreachable (reason : Text)
  | timedOut
  -- Any other error that is raised on the way.
  | broken (message : Text)

def HttpOutcome.delivery : HttpOutcome → Delivery
  | .timedOut => .failed "Gemini response timed out.".toList
  | .broken message => .rejected message
  | .refused status body =>
    .failed ("HTTP ".toList ++ Text.ofInt status ++ ": ".toList ++ Utf8.decodeLossy body)
  | .unreachable reason => .failed ("Failed to reach Gemini endpoint: ".toList ++ reason)
  | .response status body =>
    let status := status.getD 200
    if 400 ≤ status then .failed ("Unexpected HTTP status ".toList ++ Text.ofInt status)
    else
      match Utf8.decode body with
      | .ok t => .text t
      | .error f => .rejected f.message

/-- The exchange about a request, for the outcomes of the requests over HTTP that it takes. -/
def overHttp (g : Gemini) (http : Nat → HttpOutcome) (r : Model.Request) : Model.Exchange :=
  match (r.payload? g.model).map g.httpRequest with
  | .ok (.error message) => g.client.complete (fun _ => (Delivery.rejected message).reply g.nesting) r
  | _ => g.client.complete (fun n => (http n).delivery.reply g.nesting) r

/-- The requests over HTTP that an exchange took. -/
def sent (g : Gemini) (e : Model.Exchange) : List HttpRequest :=
  match e.payload.map g.httpRequest with
  | some (.ok request) => List.replicate e.asked request
  | _ => []

end Graft.Gemini
