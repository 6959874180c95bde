namespace Stepwise

def helpText : String :=
  "REX REPL Commands:
  :help              Show this help
  :load FILE         Load rule definitions from file (.rx or .json)
  :rules             List all defined rules
  :clear             Clear all rules
  :history           Show the derivation so far
  :notation NAME     Display notation (infix, functor)
  :quit              Exit

Statements:
  def NAME as PATTERN => REPLACEMENT   Define a named rule
  EXPRESSION                           Start matching on an expression
  NAME at DEPTH                        Apply a named rule at a depth
  PATTERN => REPLACEMENT at DEPTH      Apply an in-line rule at a depth
  undo                                 Revert the last step
  end [\"file\"]                         Finish, optionally writing the derivation
  quit                                 Exit

Depth 0 is the whole expression, 1 its arguments, and so on.
"

end Stepwise
