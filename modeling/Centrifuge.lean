import Centrifuge.Control.Wire
import Centrifuge.Control.Message
import Centrifuge.Control.Skip
import Centrifuge.Control.Unmarshal
import Centrifuge.Control.RoundTrip
import Centrifuge.Control.Safety
import Centrifuge.Control.Termination
import Centrifuge.Control.Merge
import Centrifuge.Control.Truncate
import Centrifuge.Control.Order
import Centrifuge.Transport.Writer
import Centrifuge.Transport.Drain
import Centrifuge.Transport.ClientData
import Centrifuge.Transport.Close
import Centrifuge.Transport.Write
import Centrifuge.Api.Handler
import Centrifuge.Api.Admin
