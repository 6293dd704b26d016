import JobTrail.Api.Reply
import JobTrail.Value.Printer

/-! # Requests and responses

An HTTP message with its body in memory. The names of headers are compared without case, and of a
repeated header the first counts.
-/

namespace JobTrail

inductive Method where
  | get
  | head
  | post
  | put
  | delete
  | options
  | other (name : String)
deriving DecidableEq, Repr

namespace Method

def ofName : String → Method
  | "GET" => get
  | "HEAD" => head
  | "POST" => post
  | "PUT" => put
  | "DELETE" => delete
  | "OPTIONS" => options
  | name => other name

def name : Method → String
  | get => "GET"
  | head => "HEAD"
  | post => "POST"
  | put => "PUT"
  | delete => "DELETE"
  | options => "OPTIONS"
  | other name => name

end Method

abbrev Headers := List (String × String)

def lowercase (s : String) : String := String.ofList (s.toList.map Char.toLower)

namespace Headers

def get? (h : Headers) (name : String) : Option String :=
  (h.find? fun entry => lowercase entry.1 = lowercase name).map (·.2)

def set (h : Headers) (name value : String) : Headers :=
  h.filter (fun entry => lowercase entry.1 ≠ lowercase name) ++ [(name, value)]

end Headers

def isHeaderChar (c : Char) : Bool := c == '\t' || (' ' ≤ c && c ≤ '~')

def isControl (c : Char) : Bool := c < ' ' || ('\x7f' ≤ c && c ≤ '\u009f')

structure HttpRequest where
  method : Method
  /-- The path with the query behind `?`. -/
  target : String
  headers : Headers
  body : ByteArray

namespace HttpRequest

def targetChars (r : HttpRequest) : List Char := r.target.toList.takeWhile (· ≠ '#')

def path (r : HttpRequest) : String := String.ofList (r.targetChars.takeWhile (· ≠ '?'))

def query? (r : HttpRequest) : Option String :=
  match r.targetChars.dropWhile (· ≠ '?') with
  | [] => none
  | _ :: query => some (String.ofList query)

def plainHeader? (r : HttpRequest) (name : String) : Option String :=
  (r.headers.get? name).filter fun v => v.toList.all isHeaderChar

end HttpRequest

structure HttpResponse where
  status : Nat
  headers : Headers
  body : ByteArray

namespace HttpResponse

def bare (status : Nat) : HttpResponse := ⟨status, [], .empty⟩

def json (status : Nat) (data : Value) : HttpResponse :=
  ⟨status, [("content-type", "application/json")], data.print.toUTF8⟩

def text (status : Nat) (content : String) : HttpResponse :=
  ⟨status, [("content-type", "text/plain; charset=utf-8")], content.toUTF8⟩

def ofReply (r : Reply) : HttpResponse := json r.status r.data

def ofError (e : ApiError) : HttpResponse := json e.status e.body

def setHeader (r : HttpResponse) (name value : String) : HttpResponse :=
  { r with headers := r.headers.set name value }

end HttpResponse
end JobTrail
