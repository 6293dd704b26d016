import JobTrail.Error

/-! # Replies

A successful answer: a status and a value, sent as it is without an envelope.
-/

namespace JobTrail

structure Reply where
  status : Nat
  data : Value
deriving DecidableEq

namespace Reply

def ok (data : Value) : Reply := ⟨200, data⟩

def created (data : Value) : Reply := ⟨201, data⟩

def row (r : Record) : Reply := ok r.rowToCamel

def createdRow (r : Record) : Reply := created r.rowToCamel

def rows (rs : List Record) : Reply := ok (Record.rowsToCamel rs)

def message (text : String) : Reply := ok (.record [("message", .text text)])

end Reply
end JobTrail
