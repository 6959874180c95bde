namespace Stepwise.CommandLine

def programName : String := "rex"

def usageText : String :=
  "usage: rex [-h] [-r RULES] [-e EXPR] [-n \x7binfix,functor\x7d] [-q] [--version]
           [script]
"

def helpText : String := usageText ++ "
REX - Rewriting EXpressions one step at a time

positional arguments:
  script                Script file to run (.rx)

options:
  -h, --help            show this help message and exit
  -r RULES, --rules RULES
                        Load rule definitions from file (can be specified
                        multiple times)
  -e EXPR, --expr EXPR  Run a program string
  -n \x7binfix,functor\x7d, --notation \x7binfix,functor\x7d
                        Display notation
  -q, --quiet           Quiet mode (only print session results)
  --version             show program's version number and exit

Examples:
  rex                                  Start REPL
  rex script.rx                        Run script
  rex -e 'pair(A, B); swap at 0; end'  Run a program string
  rex -r rules.rx                      REPL with rules
  cat script.rx | rex                  Filter mode
"

end Stepwise.CommandLine
