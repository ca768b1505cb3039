import NetworkUnix.Bbnnet.Fragments
import NetworkUnix.Bbnnet.IpLength
import NetworkUnix.Bbnnet.Local.Flight
import NetworkUnix.Bbnnet.Open
import NetworkUnix.Bbnnet.PageCounts
import NetworkUnix.Bbnnet.RawInput
import NetworkUnix.Bbnnet.Tcp.Append
import NetworkUnix.Bbnnet.Tcp.Fin
import NetworkUnix.Bbnnet.Tcp.Listen
import NetworkUnix.Bbnnet.Tcp.Options
import NetworkUnix.Bbnnet.Tcp.Parked
import NetworkUnix.Bbnnet.Tcp.SynData
import NetworkUnix.Bbnnet.Tcp.Window
import NetworkUnix.Ken.Awake
import NetworkUnix.Mmdf.Interrupts
import NetworkUnix.Mmdf.Noise
import NetworkUnix.Mmdf.Replies
import NetworkUnix.Mmdf.Strwatch
import NetworkUnix.Mmdf.Submit.Author
import NetworkUnix.Mmdf.Submit.Termination
import NetworkUnix.Mmdf.Transfer
import NetworkUnix.Ncpd.Bitmap
import NetworkUnix.Ncpd.Bytesize
import NetworkUnix.Ncpd.Life
import NetworkUnix.Ncpd.Links
import NetworkUnix.Ncpd.Pairs
import NetworkUnix.Ncpd.Refused
import NetworkUnix.Ncpd.Reserved
import NetworkUnix.Ncpk.Handled
import NetworkUnix.Ncpk.LinkZero
import NetworkUnix.Ncpk.Netread
import NetworkUnix.Ncpk.Padding
import NetworkUnix.Ncpk.VdhDown
import NetworkUnix.Ncpk.VdhHello
import NetworkUnix.Ncpk.Writers
import NetworkUnix.Ncpkernel.Rawinput
import NetworkUnix.Newtty.Capacity
import NetworkUnix.Telnet.Cbuf
import NetworkUnix.Telnet.Instep
import NetworkUnix.Telnet.Options
import NetworkUnix.Telnet.Room
import NetworkUnix.Telnet.Synch
import NetworkUnix.Telnet.Tcplib
import NetworkUnix.Telnet.Text
import NetworkUnix.UserTcp.Offered
import NetworkUnix.UserTcp.Options
import NetworkUnix.UserTcp.Preempt
import NetworkUnix.UserTcp.Resources
import NetworkUnix.UserTcp.Stops
import NetworkUnix.UserTcp.Wire
