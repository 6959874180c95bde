namespace Stepwise.Text

def beginsWith (s start : String) : Bool := start.toList.isPrefixOf s.toList

end Stepwise.Text
