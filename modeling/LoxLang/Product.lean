namespace LoxLang.Product

def name : String := "lox"

def version : String := "0.3.0"

def description : String := "Tree-walking interpreter for the Lox language"

def authors : List (String × String) := [("ardnew", "andrew@ardnew.com")]

structure Profile where
  mode : String
  path : String
  quiet : Bool

/-- The kinds of profiles there are; this program is built without any. -/
def Profile.modes : List String := []

def Profile.isAvailable : Bool := !Profile.modes.isEmpty

end LoxLang.Product
