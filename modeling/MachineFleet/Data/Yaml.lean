import MachineFleet.Data.Yaml.Node
import MachineFleet.Data.Yaml.Token.Lexer

namespace MachineFleet.Yaml

def parse? (text : String) : Option Document :=
  (tokens? text).bind documentOfTokens?

end MachineFleet.Yaml
