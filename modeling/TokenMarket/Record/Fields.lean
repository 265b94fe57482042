import TokenMarket.Error
import TokenMarket.Text.Split

/-!
# Records of fields

Other records of the contract are texts with commas between the fields.
There is no escape, so a comma inside a field makes the record one field
longer, and the count is checked before anything else.
-/

namespace TokenMarket.Fields

/-- The separator of fields. -/
def separator : Char := ','

/-- Reads one field of a record.  A complaint shows the field as it is. -/
def read {α : Type} (record field : String) (reader : List Char → Option α)
    (text : List Char) : Except Error α :=
  match reader text with
  | some value => .ok value
  | none => .error (.invalidField record field (String.ofList text))

/-- The fields as one text. -/
def join (fields : List (List Char)) : List Char :=
  Text.joinWith [separator] fields

end TokenMarket.Fields
