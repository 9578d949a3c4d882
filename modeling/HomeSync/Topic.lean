/-
Topics and topic filters.

A topic is a text of levels with `/` between them, any of which may be empty.
A filter is read level by level: `+` stands for one level, `#` for all levels
from there on, even none, and any other level for itself.  `#` ends the filter
wherever it stands, what follows it is not read.
-/
namespace HomeSync
namespace Topic

def splitLevels : List Char → List (List Char)
  | [] => [[]]
  | c :: cs =>
    if c = '/' then [] :: splitLevels cs
    else
      match splitLevels cs with
      | [] => [[c]]
      | level :: levels => (c :: level) :: levels

def levels (s : String) : List (List Char) := splitLevels s.toList

/-- Whether the levels of a filter match the levels of a topic. -/
def levelsMatch : (filter topic : List (List Char)) → Bool
  | [], [] => true
  | [], _ :: _ => false
  | f :: _, [] => f == ['#']
  | f :: fs, t :: ts =>
    if f = ['#'] then true
    else if f = ['+'] then levelsMatch fs ts
    else f == t && levelsMatch fs ts

def accepts (filter topic : String) : Bool := levelsMatch (levels filter) (levels topic)

/-- The topic that lies below a level prefix: `below? "a/b" "a/b/c/d"` is `c/d`. -/
def below? (parent topic : String) : Option String :=
  let lead := parent.toList ++ ['/']
  if lead.isPrefixOf topic.toList then some (String.ofList (topic.toList.drop lead.length))
  else none

def child (parent topic : String) : String := parent ++ "/" ++ topic

end Topic
end HomeSync
